import Httpd.HeadLines

namespace Httpd
open Scan
set_option autoImplicit true

structure RequestLine where
  method : Bytes
  target : Bytes
  version : Bytes

namespace RequestLine

def bytes (r : RequestLine) : Bytes := r.method ++ 32 :: (r.target ++ 32 :: r.version)

/-- The parts as `http_parse_request` cuts them: none is empty and the spaces are the first two. -/
structure Separated (r : RequestLine) : Prop where
  method_ne : r.method ≠ []
  method_space : 32 ∉ r.method
  target_ne : r.target ≠ []
  target_space : 32 ∉ r.target

structure Accepted (r : RequestLine) : Prop extends r.Separated where
  path : r.target.head? ≠ some 63
  version : cstr r.version = ascii "HTTP/1.0" ∨ cstr r.version = ascii "HTTP/1.1"

def path (r : RequestLine) : Bytes := r.target.takeWhile (· ≠ 63)

def request (r : RequestLine) : HttpRequest :=
  let request : HttpRequest := { HttpRequest.zero with
    methodText := HttpRequest.zero.methodText.copyBounded r.method
    path := HttpRequest.zero.path.copyBounded r.path
    versionText := HttpRequest.zero.versionText.copyBounded r.version }
  { request with
    method := parseMethod request.methodText.str
    version := parseVersion request.versionText.str }

end RequestLine

def HttpRequest.withKeepAlive (request : HttpRequest) : HttpRequest :=
  { request with
    keepAliveRequested :=
      (if request.version = .http11 then !asciiCaseEqual request.connection.str (ascii "close")
      else asciiCaseEqual request.connection.str (ascii "keep-alive")) }

theorem idxOf?_takeWhile (l : Bytes) (x : UInt8) :
    l.take ((l.idxOf? x).getD l.length) = l.takeWhile (· ≠ x) := by
  induction l with
  | nil => rfl
  | cons y l ih =>
    rw [List.idxOf?_cons]
    by_cases hy : y = x
    · rw [hy, beq_self_eq_true, List.takeWhile_cons_of_neg (by simp)]
      rfl
    · rw [beq_false_of_ne hy, List.takeWhile_cons_of_pos (by simpa using hy), ← ih]
      cases l.idxOf? x <;> rfl

theorem pathLen_eq_zero {target : Bytes} (h : target ≠ []) :
    (target.idxOf? 63).getD target.length = 0 ↔ target.head? = some 63 := by
  cases target with
  | nil => exact absurd rfl h
  | cons c target =>
    rw [List.idxOf?_cons, List.head?_cons, Option.some.injEq]
    by_cases hc : c = 63
    · rw [hc, beq_self_eq_true]
      exact ⟨fun _ => rfl, fun _ => rfl⟩
    · rw [beq_false_of_ne hc]
      cases target.idxOf? 63 with
      | none => exact ⟨nofun, fun he => absurd he hc⟩
      | some i => exact ⟨nofun, fun he => absurd he hc⟩

theorem httpParseRequest_line {r : RequestLine} (h : r.Separated) (hl : FirstLine raw r.bytes rest) :
    httpParseRequest raw =
      if r.target.head? = some 63 ∨ r.version = [] ∨ r.request.version = .unknown then none
      else some (parseHeaders rest r.request).withKeepAlive := by
  have hline : raw.take r.bytes.length = r.bytes := by
    rw [hl.bytes, List.take_left]
  have hrest : raw.drop (r.bytes.length + 2) = rest := by
    rw [hl.bytes, ← List.drop_drop, List.drop_left]
    rfl
  have hspace : r.bytes.idxOf? 32 = some r.method.length := idxOf?_append h.method_space _
  have hmethod : r.bytes.take r.method.length = r.method := List.take_left
  have hafter : r.bytes.drop (r.method.length + 1) = r.target ++ 32 :: r.version := by
    rw [RequestLine.bytes, ← List.drop_drop, List.drop_left]
    rfl
  have hsecond : (r.target ++ 32 :: r.version).idxOf? 32 = some r.target.length :=
    idxOf?_append h.target_space _
  have htarget : (r.target ++ 32 :: r.version).take r.target.length = r.target := List.take_left
  have hversion : (r.target ++ 32 :: r.version).drop (r.target.length + 1) = r.version := by
    rw [← List.drop_drop, List.drop_left]
    rfl
  have htargetLen : r.target.length ≠ 0 := fun he => h.target_ne (List.length_eq_zero_iff.1 he)
  have hmethodLen : r.method.length ≠ 0 := fun he => h.method_ne (List.length_eq_zero_iff.1 he)
  have hpath : r.target.take ((r.target.idxOf? 63).getD r.target.length) = r.path :=
    idxOf?_takeWhile r.target 63
  simp only [httpParseRequest, hl.findCrlf, hline, hspace, hafter, hsecond, hversion, htarget,
    if_neg htargetLen, hmethodLen, false_or, hmethod, hpath, hrest, pathLen_eq_zero h.target_ne]
  by_cases hv : r.version = []
  · rw [if_pos hv, if_pos (.inr (.inl hv))]
  rw [if_neg hv]
  by_cases ht : r.target.head? = some 63
  · rw [if_pos ht, if_pos (.inl ht)]
  rw [if_neg ht]
  by_cases hu : r.request.version = .unknown
  · have hbad : r.target.head? = some 63 ∨ r.version = [] ∨ r.request.version = .unknown :=
      .inr (.inr hu)
    rw [if_pos hbad]
    exact if_pos hu
  · have hgood : ¬ (r.target.head? = some 63 ∨ r.version = [] ∨ r.request.version = .unknown) :=
      fun ho => ho.elim ht fun ho => ho.elim hv hu
    rw [if_neg hgood]
    exact if_neg hu

theorem exists_line_of_httpParseRequest {raw : Bytes} (h : httpParseRequest raw = some request) :
    ∃ (r : RequestLine) (rest : Bytes), r.Separated ∧ FirstLine raw r.bytes rest := by
  simp only [httpParseRequest] at h
  split at h
  · cases h
  rename_i n hfind
  have hfirst := firstLine_of_findCrlf hfind
  generalize raw.take n = line at h hfirst
  split at h
  · cases h
  rename_i firstSpace hspace
  obtain ⟨hmethod, hmethodSpace, hmethodLt⟩ := idxOf?_split hspace
  split at h
  · cases h
  rename_i targetLen hsecond
  obtain ⟨htarget, htargetSpace, htargetLt⟩ := idxOf?_split hsecond
  split at h
  · cases h
  rename_i htargetLen
  split at h
  · cases h
  rename_i hempty
  have hmethodLen : firstSpace ≠ 0 := fun he => hempty (.inl he)
  let r : RequestLine := {
    method := line.take firstSpace
    target := (line.drop (firstSpace + 1)).take targetLen
    version := (line.drop (firstSpace + 1)).drop (targetLen + 1) }
  have hbytes : line = r.bytes := by
    rw [RequestLine.bytes, ← htarget]
    exact hmethod
  refine ⟨r, raw.drop (n + 2), ?_, hbytes ▸ hfirst⟩
  exact {
    method_ne := fun he => (List.take_eq_nil_iff.1 he).elim hmethodLen
      fun hnil => Nat.not_lt_zero _ (hnil ▸ hmethodLt)
    method_space := hmethodSpace
    target_ne := fun he => (List.take_eq_nil_iff.1 he).elim htargetLen
      fun hnil => Nat.not_lt_zero _ (hnil ▸ htargetLt)
    target_space := htargetSpace }

theorem CharArray.str_copyBounded_cstr (dest : CharArray size) (src : Bytes) :
    (dest.copyBounded src).str = (cstr src).take (size - 1) := by
  rw [CharArray.str_copyBounded, cstr, cstr, List.take_takeWhile]
  induction src.take (size - 1) with
  | nil => rfl
  | cons c s ih => rw [List.cons_append, List.takeWhile_cons, List.takeWhile_cons, ih]

theorem take_eq_iff {s text : Bytes} (h : text.length < n) : s.take n = text ↔ s = text := by
  constructor
  · intro ht
    have hlen : (s.take n).length < n := by
      rw [ht]
      exact h
    rw [List.length_take] at hlen
    rw [List.take_of_length_le (by omega)] at ht
    exact ht
  · intro ht
    rw [ht]
    exact List.take_of_length_le (Nat.le_of_lt h)

/-- A text that is too long for its field is not taken for one that fits with room to spare. -/
theorem CharArray.str_copyBounded_eq_iff (dest : CharArray size) (src : Bytes) {text : Bytes}
    (h : text.length < size - 1) : (dest.copyBounded src).str = text ↔ cstr src = text := by
  rw [CharArray.str_copyBounded_cstr]
  exact take_eq_iff h

theorem parseMethod_get (text : Bytes) : parseMethod text = .get ↔ text = ascii "GET" := by
  rw [parseMethod]
  by_cases hg : text = ascii "GET"
  · rw [if_pos hg]
    exact ⟨fun _ => hg, fun _ => rfl⟩
  · rw [if_neg hg]
    by_cases hh : text = ascii "HEAD"
    · rw [if_pos hh]
      exact ⟨nofun, fun he => absurd he hg⟩
    · rw [if_neg hh]
      exact ⟨nofun, fun he => absurd he hg⟩

theorem parseMethod_head (text : Bytes) : parseMethod text = .head ↔ text = ascii "HEAD" := by
  have hne : ascii "HEAD" ≠ ascii "GET" := by decide
  rw [parseMethod]
  by_cases hh : text = ascii "HEAD"
  · rw [if_neg fun hg => hne (hh.symm.trans hg), if_pos hh]
    exact ⟨fun _ => hh, fun _ => rfl⟩
  · rw [if_neg hh]
    by_cases hg : text = ascii "GET"
    · rw [if_pos hg]
      exact ⟨nofun, fun he => absurd he hh⟩
    · rw [if_neg hg]
      exact ⟨nofun, fun he => absurd he hh⟩

theorem parseVersion_http10 (text : Bytes) :
    parseVersion text = .http10 ↔ text = ascii "HTTP/1.0" := by
  rw [parseVersion]
  by_cases h₀ : text = ascii "HTTP/1.0"
  · rw [if_pos h₀]
    exact ⟨fun _ => h₀, fun _ => rfl⟩
  · rw [if_neg h₀]
    by_cases h₁ : text = ascii "HTTP/1.1"
    · rw [if_pos h₁]
      exact ⟨nofun, fun he => absurd he h₀⟩
    · rw [if_neg h₁]
      exact ⟨nofun, fun he => absurd he h₀⟩

theorem parseVersion_http11 (text : Bytes) :
    parseVersion text = .http11 ↔ text = ascii "HTTP/1.1" := by
  have hne : ascii "HTTP/1.1" ≠ ascii "HTTP/1.0" := by decide
  rw [parseVersion]
  by_cases h₁ : text = ascii "HTTP/1.1"
  · rw [if_neg fun h₀ => hne (h₁.symm.trans h₀), if_pos h₁]
    exact ⟨fun _ => h₁, fun _ => rfl⟩
  · rw [if_neg h₁]
    by_cases h₀ : text = ascii "HTTP/1.0"
    · rw [if_pos h₀]
      exact ⟨nofun, fun he => absurd he h₁⟩
    · rw [if_neg h₀]
      exact ⟨nofun, fun he => absurd he h₁⟩

def HttpRequest.lineFields (request : HttpRequest) :
    Bytes × Bytes × Bytes × HttpMethod × HttpVersion :=
  (request.methodText.str, request.path.str, request.versionText.str, request.method, request.version)

theorem parseRangeHeader_lineFields (value : Bytes) (request : HttpRequest) :
    (parseRangeHeader value request).lineFields = request.lineFields := by
  simp only [parseRangeHeader]
  repeat' split
  all_goals rfl

theorem parseHeaderLine_lineFields (line : Bytes) (request : HttpRequest) :
    (parseHeaderLine line request).lineFields = request.lineFields := by
  simp only [parseHeaderLine]
  split
  · rfl
  · split
    · rfl
    · split
      · exact parseRangeHeader_lineFields _ _
      · rfl

theorem parseHeaders_lineFields (headers : Bytes) (request : HttpRequest) :
    (parseHeaders headers request).lineFields = request.lineFields := by
  rw [parseHeaders_foldl]
  induction (headerLines headers).1 generalizing request with
  | nil => rfl
  | cons line lines ih =>
    rw [List.foldl_cons, ih]
    exact parseHeaderLine_lineFields line request

namespace RequestLine

theorem request_get (r : RequestLine) :
    r.request.method = .get ↔ cstr r.method = ascii "GET" := by
  have hg : (ascii "GET").length < httpMethodTextMax - 1 := by decide
  rw [← HttpRequest.zero.methodText.str_copyBounded_eq_iff r.method hg]
  exact parseMethod_get _

theorem request_head (r : RequestLine) :
    r.request.method = .head ↔ cstr r.method = ascii "HEAD" := by
  have hh : (ascii "HEAD").length < httpMethodTextMax - 1 := by decide
  rw [← HttpRequest.zero.methodText.str_copyBounded_eq_iff r.method hh]
  exact parseMethod_head _

theorem request_http10 (r : RequestLine) :
    r.request.version = .http10 ↔ cstr r.version = ascii "HTTP/1.0" := by
  have h₀ : (ascii "HTTP/1.0").length < httpVersionTextMax - 1 := by decide
  rw [← HttpRequest.zero.versionText.str_copyBounded_eq_iff r.version h₀]
  exact parseVersion_http10 _

theorem request_http11 (r : RequestLine) :
    r.request.version = .http11 ↔ cstr r.version = ascii "HTTP/1.1" := by
  have h₁ : (ascii "HTTP/1.1").length < httpVersionTextMax - 1 := by decide
  rw [← HttpRequest.zero.versionText.str_copyBounded_eq_iff r.version h₁]
  exact parseVersion_http11 _

theorem request_version (r : RequestLine) :
    r.request.version ≠ .unknown ↔
      cstr r.version = ascii "HTTP/1.0" ∨ cstr r.version = ascii "HTTP/1.1" := by
  rw [← r.request_http10, ← r.request_http11]
  cases r.request.version with
  | http10 => exact ⟨fun _ => .inl rfl, fun _ => nofun⟩
  | http11 => exact ⟨fun _ => .inr rfl, fun _ => nofun⟩
  | unknown => exact ⟨fun h => absurd rfl h, fun h => h.elim nofun nofun⟩

theorem accepted_iff {r : RequestLine} (h : r.Separated) :
    r.Accepted ↔ ¬ (r.target.head? = some 63 ∨ r.version = [] ∨ r.request.version = .unknown) := by
  constructor
  · intro ha ho
    rcases ho with hp | hv | hu
    · exact ha.path hp
    · have hversion := ha.version
      rw [hv] at hversion
      revert hversion
      decide
    · exact r.request_version.2 ha.version hu
  · intro hn
    have hpath : r.target.head? ≠ some 63 := fun hp => hn (.inl hp)
    have hversion : r.request.version ≠ .unknown := fun hu => hn (.inr (.inr hu))
    exact { h with
      path := hpath
      version := r.request_version.1 hversion }

end RequestLine

/-- An accepted request line gives the request that its parts name, and then the header lines
are read. -/
theorem httpParseRequest_accepted {r : RequestLine} (h : r.Accepted)
    (hl : FirstLine raw r.bytes rest) :
    httpParseRequest raw = some (parseHeaders rest r.request).withKeepAlive := by
  rw [httpParseRequest_line h.toSeparated hl]
  exact if_neg ((RequestLine.accepted_iff h.toSeparated).1 h)

theorem RequestLine.Separated.accepted {request : HttpRequest} {r : RequestLine} (h : r.Separated)
    (hl : FirstLine raw r.bytes rest) (hp : httpParseRequest raw = some request) : r.Accepted := by
  rw [httpParseRequest_line h hl] at hp
  rw [RequestLine.accepted_iff h]
  intro ho
  rw [if_pos ho] at hp
  cases hp

theorem accepted_of_httpParseRequest {raw : Bytes} (h : httpParseRequest raw = some request) :
    ∃ (r : RequestLine) (rest : Bytes), FirstLine raw r.bytes rest ∧ r.Accepted := by
  obtain ⟨r, rest, hr, hl⟩ := exists_line_of_httpParseRequest h
  exact ⟨r, rest, hl, hr.accepted hl h⟩

theorem RequestLine.Accepted.lineFields {request : HttpRequest} {r : RequestLine} (h : r.Accepted)
    (hl : FirstLine raw r.bytes rest) (hp : httpParseRequest raw = some request) :
    request.lineFields = r.request.lineFields := by
  rw [httpParseRequest_accepted h hl, Option.some.injEq] at hp
  rw [← hp]
  exact parseHeaders_lineFields rest r.request

/-- The language of `http_parse_request`: it accepts exactly the bytes whose first line has the
form of a request line, and it takes the method and the version that this line names. -/
theorem httpParseRequest_language (raw : Bytes) :
    ((httpParseRequest raw).isSome ↔
      ∃ (r : RequestLine) (rest : Bytes), FirstLine raw r.bytes rest ∧ r.Accepted) ∧
    ∀ (r : RequestLine) (rest : Bytes) (request : HttpRequest),
      FirstLine raw r.bytes rest → r.Accepted → httpParseRequest raw = some request →
      (request.version = .http10 ↔ cstr r.version = ascii "HTTP/1.0") ∧
      (request.version = .http11 ↔ cstr r.version = ascii "HTTP/1.1") ∧
      (request.method = .get ↔ cstr r.method = ascii "GET") ∧
      (request.method = .head ↔ cstr r.method = ascii "HEAD") := by
  constructor
  · constructor
    · intro h
      obtain ⟨request, hr⟩ := Option.isSome_iff_exists.1 h
      exact accepted_of_httpParseRequest hr
    · rintro ⟨r, rest, hl, ha⟩
      rw [httpParseRequest_accepted ha hl]
      rfl
  · intro r rest request hl ha hp
    have hfields := ha.lineFields hl hp
    simp only [HttpRequest.lineFields, Prod.mk.injEq] at hfields
    obtain ⟨-, -, -, hmethod, hversion⟩ := hfields
    rw [hmethod, hversion]
    exact ⟨r.request_http10, r.request_http11, r.request_get, r.request_head⟩

def longMethod : RequestLine where
  method := ascii "HEADHEADHEADHEAD"
  target := ascii "/a?b"
  version := ascii "HTTP/1.0" ++ 0 :: ascii " later"

theorem httpParseRequest_language_longMethod :
    ∃ request, httpParseRequest (longMethod.bytes ++ (crlf ++ crlf)) = some request ∧
      request.version = .http10 ∧ request.method ≠ .get ∧ request.method ≠ .head := by
  have hl : FirstLine (longMethod.bytes ++ (crlf ++ crlf)) longMethod.bytes crlf := ⟨rfl, by decide⟩
  have ha : longMethod.Accepted := {
    method_ne := by decide
    method_space := by decide
    target_ne := by decide
    target_space := by decide
    path := by decide
    version := by decide }
  obtain ⟨hsome, hfields⟩ := httpParseRequest_language (longMethod.bytes ++ (crlf ++ crlf))
  obtain ⟨request, hp⟩ := Option.isSome_iff_exists.1 (hsome.2 ⟨longMethod, crlf, hl, ha⟩)
  obtain ⟨hversion, -, hget, hhead⟩ := hfields longMethod crlf request hl ha hp
  have hg : cstr longMethod.method ≠ ascii "GET" := by decide
  have hh : cstr longMethod.method ≠ ascii "HEAD" := by decide
  exact ⟨request, hp, hversion.2 (by decide), fun he => hg (hget.1 he), fun he => hh (hhead.1 he)⟩

/-- What the file layer reads as the path is the target without its query, up to the first NUL
and as far as the field has room; it is the whole of it exactly if it fits and has no NUL. -/
theorem httpParseRequest_path (raw : Bytes) (request : HttpRequest)
    (h : httpParseRequest raw = some request) :
    ∃ (r : RequestLine) (rest : Bytes), FirstLine raw r.bytes rest ∧ r.Accepted ∧
      request.path.str = (cstr r.path).take (httpPathMax - 1) ∧
      (request.path.str = r.path ↔ r.path.length < httpPathMax ∧ 0 ∉ r.path) := by
  obtain ⟨r, rest, hl, ha⟩ := accepted_of_httpParseRequest h
  have hfields := ha.lineFields hl h
  simp only [HttpRequest.lineFields, Prod.mk.injEq] at hfields
  obtain ⟨-, hpath, -⟩ := hfields
  have hstr : request.path.str = (cstr r.path).take (httpPathMax - 1) :=
    hpath.trans (CharArray.str_copyBounded_cstr _ _)
  refine ⟨r, rest, hl, ha, hstr, ?_⟩
  constructor
  · intro he
    have hlen := request.path.str_length
    have hzero := request.path.zero_notMem_str
    rw [he] at hlen hzero
    exact ⟨hlen, hzero⟩
  · rintro ⟨hlen, hzero⟩
    rw [hstr, cstr_eq_of_notMem hzero]
    exact List.take_of_length_le (Nat.le_pred_of_lt hlen)

theorem httpParseRequest_path_query :
    ∃ (r : RequestLine) (rest : Bytes) (request : HttpRequest),
      FirstLine (ascii "GET /a?b HTTP/1.1\r\n\r\n") r.bytes rest ∧
      request.path.str = (cstr r.path).take (httpPathMax - 1) := by
  have hp : (httpParseRequest (ascii "GET /a?b HTTP/1.1\r\n\r\n")).isSome := by decide
  obtain ⟨request, hr⟩ := Option.isSome_iff_exists.1 hp
  obtain ⟨r, rest, hl, _, hpath, _⟩ := httpParseRequest_path _ request hr
  exact ⟨r, rest, request, hl, hpath⟩

def nulTarget : RequestLine where
  method := ascii "GET"
  target := ascii "/secret" ++ 0 :: ascii ".txt"
  version := ascii "HTTP/1.1"

/-- A target with a NUL is not refused; the path in front of it is served. -/
theorem nulTarget_path :
    ¬ ∀ (raw : Bytes) (request : HttpRequest) (r : RequestLine) (rest : Bytes),
      httpParseRequest raw = some request → FirstLine raw r.bytes rest → r.Separated →
      request.path.str = r.path := by
  intro h
  have hl : FirstLine (nulTarget.bytes ++ (crlf ++ crlf)) nulTarget.bytes crlf := ⟨rfl, by decide⟩
  have ha : nulTarget.Accepted := {
    method_ne := by decide
    method_space := by decide
    target_ne := by decide
    target_space := by decide
    path := by decide
    version := by decide }
  have hr := httpParseRequest_accepted ha hl
  have hpath := h _ _ nulTarget crlf hr hl ha.toSeparated
  have hzero := (parseHeaders crlf nulTarget.request).withKeepAlive.path.zero_notMem_str
  rw [hpath] at hzero
  exact hzero (by decide)

end Httpd
