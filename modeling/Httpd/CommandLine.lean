import Httpd.Numerals

namespace Httpd
set_option autoImplicit true

structure ServerConfig where
  host : Bytes
  port : Int
  threadCount : Int
  queueCapacity : Int
  docRoot : Bytes
  accessLog : Bytes
  deriving DecidableEq

def defaultConfig : ServerConfig where
  host := ascii "0.0.0.0"
  port := 8080
  threadCount := 4
  queueCapacity := 64
  docRoot := ascii "www"
  accessLog := ascii "access.log"

def isSpace (c : UInt8) : Bool := c = 32 ∨ (9 ≤ c ∧ c ≤ 13)

def longMax : Int := 9223372036854775807
def longMin : Int := -9223372036854775808

def takeSign : Bytes → Bool × Bytes
  | 45 :: rest => (true, rest)
  | 43 :: rest => (false, rest)
  | rest => (false, rest)

/-- `strtol` with base 10: the value, which is clamped to a `long`, and where it stopped. -/
def strtol (text : Bytes) : Int × Bytes :=
  let (negative, unsigned) := takeSign (text.dropWhile isSpace)
  let digits := unsigned.takeWhile isDigit
  if digits = [] then (0, text)
  else if negative then (max longMin (-numeralValue digits), unsigned.dropWhile isDigit)
  else (min longMax (numeralValue digits), unsigned.dropWhile isDigit)

def parsePositiveInt (text : Bytes) : Option Int :=
  let (parsed, stop) := strtol text
  if text = [] ∨ stop ≠ [] ∨ parsed ≤ 0 ∨ parsed > 65535 then none else some parsed

/-- What `getopt` has yet to look at: the rest of the word it is in, and the words behind it. -/
structure Getopt where
  nextchar : Bytes
  args : List Bytes
  deriving DecidableEq

inductive GetoptResult where
  | finished
  | unknown
  | option (letter : UInt8) (optarg : Bytes)
  deriving DecidableEq

def optionKind (optstring : Bytes) (letter : UInt8) : Option Bool :=
  if letter = 58 then none
  else (optstring.idxOf? letter).map fun i => optstring[i + 1]? == some 58

/-- `getopt` at a letter; an argument is the rest of the word, or else the next word. -/
def getoptLetter (optstring : Bytes) (letter : UInt8) (tail : Bytes) (args : List Bytes) :
    GetoptResult × Getopt :=
  match optionKind optstring letter with
  | none => (.unknown, ⟨tail, args⟩)
  | some false => (.option letter [], ⟨tail, args⟩)
  | some true =>
    if tail ≠ [] then (.option letter tail, ⟨[], args⟩)
    else
      match args with
      | [] => (.unknown, ⟨[], []⟩)
      | value :: args => (.option letter value, ⟨[], args⟩)

/-- POSIX `getopt`, which stops at the first word that is no option. -/
def getopt (optstring : Bytes) (s : Getopt) : GetoptResult × Getopt :=
  match s.nextchar with
  | letter :: tail => getoptLetter optstring letter tail s.args
  | [] =>
    match s.args with
    | [] => (.finished, s)
    | arg :: args =>
      if arg = [45, 45] then (.finished, ⟨[], args⟩)
      else
        match arg with
        | 45 :: letter :: tail => getoptLetter optstring letter tail args
        | _ => (.finished, s)

def optstring : Bytes := ascii "h:p:r:t:q:l:"

/-- The `switch` of `main`; `none` where it prints the usage and returns. -/
def setOption (config : ServerConfig) (letter : UInt8) (optarg : Bytes) : Option ServerConfig :=
  match letter with
  | 104 => some { config with host := optarg }
  | 112 => (parsePositiveInt optarg).map fun port => { config with port := port }
  | 114 => some { config with docRoot := optarg }
  | 116 => (parsePositiveInt optarg).map fun count => { config with threadCount := count }
  | 113 => (parsePositiveInt optarg).map fun capacity => { config with queueCapacity := capacity }
  | 108 => some { config with accessLog := optarg }
  | _ => none

def optionLoop : Nat → ServerConfig → Getopt → Option ServerConfig
  | 0, _, _ => none
  | fuel + 1, config, s =>
    match getopt optstring s with
    | (.finished, _) => some config
    | (.unknown, _) => none
    | (.option letter optarg, s) => (setOption config letter optarg).bind (optionLoop fuel · s)

/-- The options of `main`: every turn of its loop but the last takes a word. -/
def parseOptions (args : List Bytes) : Option ServerConfig :=
  optionLoop (args.length + 1) defaultConfig ⟨[], args⟩

def PositiveNumeral (text : Bytes) (value : Int) : Prop :=
  ∃ blanks sign digits, text = blanks ++ (sign ++ digits) ∧ (∀ c ∈ blanks, isSpace c = true) ∧
    (sign = [] ∨ sign = [43]) ∧ (∀ c ∈ digits, isDigit c = true) ∧
    value = numeralValue digits ∧ 1 ≤ value ∧ value ≤ 65535

theorem takeSign_digits {digits : Bytes} (h : ∀ c ∈ digits, isDigit c = true) :
    takeSign digits = (false, digits) := by
  unfold takeSign
  split
  · exact absurd (h 45 List.mem_cons_self) (by decide)
  · exact absurd (h 43 List.mem_cons_self) (by decide)
  · rfl

theorem strtol_parts (text : Bytes) : ∃ blanks sign digits rest,
    text = blanks ++ (sign ++ (digits ++ rest)) ∧ (∀ c ∈ blanks, isSpace c = true) ∧
      (∀ c ∈ digits, isDigit c = true) ∧ (sign = [] ∨ sign = [43] ∨ sign = [45]) ∧
      strtol text = if digits = [] then (0, text)
        else if sign = [45] then (max longMin (-numeralValue digits), rest)
        else (min longMax (numeralValue digits), rest) := by
  have hblanks : ∀ c ∈ text.takeWhile isSpace, isSpace c = true :=
    fun c hc => List.all_eq_true.1 List.all_takeWhile c hc
  have hdigits : ∀ s : Bytes, ∀ c ∈ s.takeWhile isDigit, isDigit c = true :=
    fun s c hc => List.all_eq_true.1 List.all_takeWhile c hc
  have hsplit : ∀ s : Bytes, s.takeWhile isDigit ++ s.dropWhile isDigit = s :=
    fun s => List.takeWhile_append_dropWhile
  have htext : text.takeWhile isSpace ++ text.dropWhile isSpace = text :=
    List.takeWhile_append_dropWhile
  have hsign : ∃ sign, text.dropWhile isSpace = sign ++ (takeSign (text.dropWhile isSpace)).2 ∧
      (sign = [] ∨ sign = [43] ∨ sign = [45]) ∧
      ((takeSign (text.dropWhile isSpace)).1 = true ↔ sign = [45]) := by
    unfold takeSign
    split
    · exact ⟨[45], ‹_›, .inr (.inr rfl), iff_of_true rfl rfl⟩
    · exact ⟨[43], ‹_›, .inr (.inl rfl), iff_of_false nofun nofun⟩
    · exact ⟨[], rfl, .inl rfl, iff_of_false nofun nofun⟩
  obtain ⟨sign, hs, hcases, hneg⟩ := hsign
  refine ⟨_, sign, _, (takeSign (text.dropWhile isSpace)).2.dropWhile isDigit, ?_, hblanks,
    hdigits (takeSign (text.dropWhile isSpace)).2, hcases, ?_⟩
  · rw [hsplit, ← hs, htext]
  · simp only [strtol, hneg]

theorem isSpace_digit {c : UInt8} (h : isDigit c = true) : isSpace c = false := by
  obtain ⟨hlow, _⟩ := (isDigit_iff c).1 h
  rw [isSpace, decide_eq_false_iff_not]
  intro hc
  obtain rfl | ⟨_, hhigh⟩ := hc
  · exact absurd hlow (by decide)
  · have hle : c.toNat ≤ 13 := UInt8.le_iff_toNat_le.1 hhigh
    omega

theorem strtol_numeral {blanks sign digits : Bytes} (hb : ∀ c ∈ blanks, isSpace c = true)
    (hs : sign = [] ∨ sign = [43]) (hd : ∀ c ∈ digits, isDigit c = true) (hne : digits ≠ []) :
    strtol (blanks ++ (sign ++ digits)) = (min longMax (numeralValue digits), []) := by
  have hstop : (sign ++ digits).dropWhile isSpace = sign ++ digits := by
    obtain rfl | rfl := hs
    · cases digits with
      | nil => exact absurd rfl hne
      | cons c digits =>
        apply List.dropWhile_cons_of_neg
        rw [isSpace_digit (hd c List.mem_cons_self)]
        exact Bool.false_ne_true
    · rfl
  have hsign : takeSign (sign ++ digits) = (false, digits) := by
    obtain rfl | rfl := hs
    · exact takeSign_digits hd
    · rfl
  have htake : digits.takeWhile isDigit = digits := List.takeWhile_eq_self_iff.2 hd
  have hdrop : digits.dropWhile isDigit = [] := List.dropWhile_eq_nil_iff.2 hd
  simp only [strtol, List.dropWhile_append_of_pos hb, hstop, hsign, htake, hdrop, if_neg hne,
    Bool.false_eq_true, if_false]

theorem parsePositiveInt_eq_some : parsePositiveInt text = some value ↔ text ≠ [] ∧
    (strtol text).2 = [] ∧ 0 < (strtol text).1 ∧ (strtol text).1 ≤ 65535 ∧
      value = (strtol text).1 := by
  simp only [parsePositiveInt]
  split
  · rename_i h
    constructor
    · exact nofun
    · intro hok
      obtain ⟨hne, hstop, hpos, hmax, _⟩ := hok
      obtain h | h | h | h := h
      · exact absurd h hne
      · exact absurd hstop h
      · exact absurd hpos (not_lt.2 h)
      · exact absurd hmax (not_le.2 h)
  · rename_i h
    simp only [not_or, not_le, not_lt, ne_eq, not_not] at h
    rw [Option.some.injEq]
    exact ⟨fun he => ⟨h.1, h.2.1, h.2.2.1, h.2.2.2, he.symm⟩, fun hok => hok.2.2.2.2.symm⟩

theorem parsePositiveInt_iff (text : Bytes) (value : Int) :
    parsePositiveInt text = some value ↔ PositiveNumeral text value := by
  rw [parsePositiveInt_eq_some]
  constructor
  · intro h
    obtain ⟨blanks, sign, digits, rest, htext, hblanks, hdigits, hsign, hval⟩ := strtol_parts text
    obtain ⟨_, hstop, hpos, hmax, hvalue⟩ := h
    have hne : digits ≠ [] := by
      intro he
      rw [hval, if_pos he] at hpos
      exact lt_irrefl _ hpos
    have hplus : sign ≠ [45] := by
      intro he
      rw [hval, if_neg hne, if_pos he] at hpos
      have hminus : max longMin (-(numeralValue digits : Int)) ≤ 0 := max_le (by decide) (by omega)
      exact absurd hpos (not_lt.2 hminus)
    rw [if_neg hne, if_neg hplus] at hval
    simp only [hval] at hstop hpos hmax hvalue
    have hsmall : (numeralValue digits : Int) ≤ longMax := by
      apply le_of_not_gt
      intro hlarge
      rw [min_eq_left (le_of_lt hlarge)] at hmax
      exact absurd hmax (by decide)
    rw [min_eq_right hsmall] at hpos hmax hvalue
    refine ⟨blanks, sign, digits, ?_, hblanks, ?_, hdigits, hvalue, hvalue ▸ hpos, hvalue ▸ hmax⟩
    · rw [htext, hstop, List.append_nil]
    · obtain hs | hs | hs := hsign
      · exact .inl hs
      · exact .inr hs
      · exact absurd hs hplus
  · intro h
    obtain ⟨blanks, sign, digits, rfl, hblanks, hsign, hdigits, hvalue, hpos, hmax⟩ := h
    have hne : digits ≠ [] := by
      intro he
      rw [hvalue, he] at hpos
      exact absurd hpos (by decide)
    have hclamp : min longMax (numeralValue digits : Int) = value := by
      rw [← hvalue]
      apply min_eq_right
      exact le_trans hmax (by decide)
    rw [strtol_numeral hblanks hsign hdigits hne, hclamp]
    refine ⟨?_, rfl, Int.lt_of_lt_of_le Int.zero_lt_one hpos, hmax, rfl⟩
    exact List.append_ne_nil_of_right_ne_nil _ (List.append_ne_nil_of_right_ne_nil _ hne)

theorem PositiveNumeral.unique (h : PositiveNumeral text a) (h' : PositiveNumeral text b) :
    a = b := by
  have ha := (parsePositiveInt_iff text a).2 h
  rw [(parsePositiveInt_iff text b).2 h'] at ha
  exact (Option.some.inj ha).symm

structure OptionUse where
  letter : UInt8
  value : Bytes
  joined : Bool

def OptionUse.words (u : OptionUse) : List Bytes :=
  if u.joined then [45 :: u.letter :: u.value] else [[45, u.letter], u.value]

structure OptionUse.Valid (u : OptionUse) : Prop where
  known : u.letter ∈ ascii "hprtql"
  joined : u.joined = true → u.value ≠ []
  numeral : u.letter ∈ ascii "ptq" → ∃ value, PositiveNumeral u.value value

/-- What may follow the options: nothing, `--` with anything, or a word that is no option. -/
def Operands : List Bytes → Prop
  | [] => True
  | arg :: _ => arg = [45, 45] ∨ arg = [45] ∨ arg.head? ≠ some 45

/-- The last use of a letter decides, and without any the value from before stays. -/
def Chosen (letter : UInt8) (meaning : Bytes → α → Prop) (initial : α) (uses : List OptionUse)
    (x : α) : Prop :=
  ((∀ u ∈ uses, u.letter ≠ letter) ∧ x = initial) ∨
    ∃ before u after, uses = before ++ u :: after ∧ u.letter = letter ∧
      (∀ v ∈ after, v.letter ≠ letter) ∧ meaning u.value x

structure Settled (config : ServerConfig) (uses : List OptionUse) (result : ServerConfig) :
    Prop where
  host : Chosen 104 Eq config.host uses result.host
  port : Chosen 112 PositiveNumeral config.port uses result.port
  docRoot : Chosen 114 Eq config.docRoot uses result.docRoot
  threadCount : Chosen 116 PositiveNumeral config.threadCount uses result.threadCount
  queueCapacity : Chosen 113 PositiveNumeral config.queueCapacity uses result.queueCapacity
  accessLog : Chosen 108 Eq config.accessLog uses result.accessLog

theorem chosen_nil {meaning : Bytes → α → Prop} :
    Chosen letter meaning initial [] x ↔ x = initial := by
  constructor
  · intro h
    obtain ⟨_, hx⟩ | ⟨before, u, after, he, _⟩ := h
    · exact hx
    · exact absurd he.symm (List.append_ne_nil_of_right_ne_nil _ (List.cons_ne_nil _ _))
  · exact fun hx => .inl ⟨nofun, hx⟩

def Turned (letter : UInt8) (meaning : Bytes → α → Prop) (used : UInt8) (value : Bytes)
    (before after : α) : Prop :=
  (used = letter ∧ meaning value after) ∨ (used ≠ letter ∧ after = before)

theorem chosen_cons {meaning : Bytes → α → Prop}
    (hm : ∀ value a b, meaning value a → meaning value b → a = b)
    (hu : Turned letter meaning u.letter u.value initial next) :
    Chosen letter meaning initial (u :: uses) x ↔ Chosen letter meaning next uses x := by
  constructor
  · intro h
    obtain ⟨hnone, rfl⟩ | ⟨before, w, after, he, hw, hafter, hx⟩ := h
    · obtain ⟨hl, _⟩ | ⟨_, rfl⟩ := hu
      · exact absurd hl (hnone u List.mem_cons_self)
      · exact .inl ⟨fun v hv => hnone v (List.mem_cons_of_mem _ hv), rfl⟩
    · cases before with
      | nil =>
        cases he
        obtain ⟨_, hnext⟩ | ⟨hl, _⟩ := hu
        · exact .inl ⟨hafter, hm _ _ _ hx hnext⟩
        · exact absurd hw hl
      | cons first before =>
        cases he
        exact .inr ⟨before, w, after, rfl, hw, hafter, hx⟩
  · intro h
    obtain ⟨hnone, rfl⟩ | ⟨before, w, after, rfl, hw, hafter, hx⟩ := h
    · obtain ⟨hl, hnext⟩ | ⟨hl, rfl⟩ := hu
      · exact .inr ⟨[], u, uses, rfl, hl, hnone, hnext⟩
      · exact .inl ⟨List.forall_mem_cons.2 ⟨hl, hnone⟩, rfl⟩
    · exact .inr ⟨u :: before, w, after, rfl, hw, hafter, hx⟩

theorem settled_nil : Settled config [] result ↔ result = config := by
  constructor
  · intro h
    cases config
    cases result
    rw [ServerConfig.mk.injEq]
    exact ⟨chosen_nil.1 h.host, chosen_nil.1 h.port, chosen_nil.1 h.threadCount,
      chosen_nil.1 h.queueCapacity, chosen_nil.1 h.docRoot, chosen_nil.1 h.accessLog⟩
  · intro h
    subst h
    constructor <;> exact chosen_nil.2 rfl

inductive Sets (config : ServerConfig) (value : Bytes) : UInt8 → ServerConfig → Prop where
  | host : Sets config value 104 { config with host := value }
  | port (h : PositiveNumeral value port) : Sets config value 112 { config with port := port }
  | docRoot : Sets config value 114 { config with docRoot := value }
  | threadCount (h : PositiveNumeral value count) :
      Sets config value 116 { config with threadCount := count }
  | queueCapacity (h : PositiveNumeral value capacity) :
      Sets config value 113 { config with queueCapacity := capacity }
  | accessLog : Sets config value 108 { config with accessLog := value }

theorem setOption_sets (h : setOption config letter value = some next) :
    Sets config value letter next := by
  unfold setOption at h
  split at h
  · cases h
    exact .host
  · obtain ⟨port, hp, rfl⟩ := Option.map_eq_some_iff.1 h
    exact .port ((parsePositiveInt_iff value port).1 hp)
  · cases h
    exact .docRoot
  · obtain ⟨count, hp, rfl⟩ := Option.map_eq_some_iff.1 h
    exact .threadCount ((parsePositiveInt_iff value count).1 hp)
  · obtain ⟨capacity, hp, rfl⟩ := Option.map_eq_some_iff.1 h
    exact .queueCapacity ((parsePositiveInt_iff value capacity).1 hp)
  · cases h
    exact .accessLog
  · cases h

theorem OptionUse.Valid.sets {u : OptionUse} (h : u.Valid) (config : ServerConfig) :
    ∃ next, setOption config u.letter u.value = some next := by
  obtain ⟨letter, value, joined⟩ := u
  have hnumeral : letter ∈ ascii "ptq" → ∃ n, parsePositiveInt value = some n := by
    intro hl
    obtain ⟨n, hn⟩ := h.numeral hl
    exact ⟨n, (parsePositiveInt_iff value n).2 hn⟩
  have hknown : letter ∈ ascii "hprtql" := h.known
  simp only [show ascii "hprtql" = [104, 112, 114, 116, 113, 108] from rfl, List.mem_cons,
    List.not_mem_nil, or_false] at hknown
  obtain rfl | rfl | rfl | rfl | rfl | rfl := hknown
  · exact ⟨_, rfl⟩
  · obtain ⟨n, hn⟩ := hnumeral (by decide)
    exact ⟨_, congrArg (Option.map _) hn⟩
  · exact ⟨_, rfl⟩
  · obtain ⟨n, hn⟩ := hnumeral (by decide)
    exact ⟨_, congrArg (Option.map _) hn⟩
  · obtain ⟨n, hn⟩ := hnumeral (by decide)
    exact ⟨_, congrArg (Option.map _) hn⟩
  · exact ⟨_, rfl⟩

theorem Sets.known (h : Sets config value letter next) : letter ∈ ascii "hprtql" ∧
    (letter ∈ ascii "ptq" → ∃ n, PositiveNumeral value n) := by
  cases h with
  | host | docRoot | accessLog => exact ⟨by decide, fun hl => absurd hl (by decide)⟩
  | port hn | threadCount hn | queueCapacity hn => exact ⟨by decide, fun _ => ⟨_, hn⟩⟩

structure Turns (config : ServerConfig) (used : UInt8) (value : Bytes) (next : ServerConfig) :
    Prop where
  host : Turned 104 Eq used value config.host next.host
  port : Turned 112 PositiveNumeral used value config.port next.port
  docRoot : Turned 114 Eq used value config.docRoot next.docRoot
  threadCount : Turned 116 PositiveNumeral used value config.threadCount next.threadCount
  queueCapacity : Turned 113 PositiveNumeral used value config.queueCapacity next.queueCapacity
  accessLog : Turned 108 Eq used value config.accessLog next.accessLog

theorem Sets.turns (h : Sets config value letter next) : Turns config letter value next := by
  cases h with
  | host | docRoot | accessLog =>
    constructor <;> first | exact .inl ⟨rfl, rfl⟩ | exact .inr ⟨by decide, rfl⟩
  | port hn | threadCount hn | queueCapacity hn =>
    constructor <;> first | exact .inl ⟨rfl, hn⟩ | exact .inr ⟨by decide, rfl⟩

theorem settled_cons (h : Turns config u.letter u.value next) :
    Settled config (u :: uses) result ↔ Settled next uses result := by
  have htext : ∀ value a b : Bytes, value = a → value = b → a = b :=
    fun _ _ _ ha hb => ha.symm.trans hb
  have hnumeral : ∀ text a b, PositiveNumeral text a → PositiveNumeral text b → a = b :=
    fun _ _ _ => PositiveNumeral.unique
  constructor
  · intro hs
    constructor
    · exact (chosen_cons htext h.host).1 hs.host
    · exact (chosen_cons hnumeral h.port).1 hs.port
    · exact (chosen_cons htext h.docRoot).1 hs.docRoot
    · exact (chosen_cons hnumeral h.threadCount).1 hs.threadCount
    · exact (chosen_cons hnumeral h.queueCapacity).1 hs.queueCapacity
    · exact (chosen_cons htext h.accessLog).1 hs.accessLog
  · intro hs
    constructor
    · exact (chosen_cons htext h.host).2 hs.host
    · exact (chosen_cons hnumeral h.port).2 hs.port
    · exact (chosen_cons htext h.docRoot).2 hs.docRoot
    · exact (chosen_cons hnumeral h.threadCount).2 hs.threadCount
    · exact (chosen_cons hnumeral h.queueCapacity).2 hs.queueCapacity
    · exact (chosen_cons htext h.accessLog).2 hs.accessLog

theorem optionKind_optstring (letter : UInt8) :
    optionKind optstring letter = if letter ∈ ascii "hprtql" then some true else none := by
  split
  · rename_i h
    simp only [show ascii "hprtql" = [104, 112, 114, 116, 113, 108] from rfl, List.mem_cons,
      List.not_mem_nil, or_false] at h
    obtain rfl | rfl | rfl | rfl | rfl | rfl := h <;> rfl
  · rename_i h
    rw [optionKind]
    split
    · rfl
    · rename_i hcolon
      have hnone : optstring.idxOf? letter = none := by
        apply List.idxOf?_eq_none_iff.2
        intro hm
        simp only [show optstring = [104, 58, 112, 58, 114, 58, 116, 58, 113, 58, 108, 58] from rfl,
          List.mem_cons, List.not_mem_nil, or_false] at hm
        simp only [show ascii "hprtql" = [104, 112, 114, 116, 113, 108] from rfl, List.mem_cons,
          List.not_mem_nil, or_false] at h
        tauto
      rw [hnone]
      rfl

theorem getoptLetter_cases (letter : UInt8) (tail : Bytes) (args : List Bytes) :
    (getoptLetter optstring letter tail args).1 = .unknown ∨
      ∃ u : OptionUse, ∃ rest, (45 :: letter :: tail) :: args = u.words ++ rest ∧
        (u.joined = true → u.value ≠ []) ∧
        getoptLetter optstring letter tail args = (.option u.letter u.value, ⟨[], rest⟩) := by
  unfold getoptLetter
  rw [optionKind_optstring]
  by_cases hl : letter ∈ ascii "hprtql"
  · simp only [if_pos hl]
    cases tail with
    | cons c tail => exact .inr ⟨⟨letter, c :: tail, true⟩, args, rfl, fun _ => nofun, rfl⟩
    | nil =>
      cases args with
      | nil => exact .inl rfl
      | cons value args => exact .inr ⟨⟨letter, value, false⟩, args, rfl, nofun, rfl⟩
  · simp only [if_neg hl]
    exact .inl trivial

theorem getopt_cases (args : List Bytes) :
    ((getopt optstring ⟨[], args⟩).1 = .finished ∧ Operands args) ∨
      (getopt optstring ⟨[], args⟩).1 = .unknown ∨
      ∃ u : OptionUse, ∃ rest, args = u.words ++ rest ∧ (u.joined = true → u.value ≠ []) ∧
        getopt optstring ⟨[], args⟩ = (.option u.letter u.value, ⟨[], rest⟩) := by
  cases args with
  | nil => exact .inl ⟨rfl, trivial⟩
  | cons arg args =>
    simp only [getopt]
    split
    · rename_i h
      exact .inl ⟨rfl, .inl h⟩
    · split
      · rename_i letter tail _
        exact .inr (getoptLetter_cases letter tail args)
      · rename_i h
        refine .inl ⟨rfl, .inr ?_⟩
        cases arg with
        | nil => exact .inr nofun
        | cons c tail =>
          by_cases hc : c = 45
          · subst hc
            cases tail with
            | nil => exact .inl rfl
            | cons letter tail => exact absurd rfl (h letter tail)
          · exact .inr fun he => hc (Option.some.inj he)

theorem getopt_words {u : OptionUse} (hk : u.letter ∈ ascii "hprtql")
    (hj : u.joined = true → u.value ≠ []) (rest : List Bytes) :
    getopt optstring ⟨[], u.words ++ rest⟩ = (.option u.letter u.value, ⟨[], rest⟩) := by
  obtain ⟨letter, value, joined⟩ := u
  have hdash : letter ≠ 45 := by
    intro he
    rw [he] at hk
    exact absurd hk (by decide : (45 : UInt8) ∉ ascii "hprtql")
  have hword : ∀ tail : Bytes, 45 :: letter :: tail ≠ [45, 45] := by
    intro tail he
    exact hdash (List.cons.inj (List.cons.inj he).2).1
  have hkind : optionKind optstring letter = some true := by
    rw [optionKind_optstring]
    exact if_pos hk
  cases joined with
  | true =>
    change getopt optstring ⟨[], (45 :: letter :: value) :: rest⟩ = _
    simp only [getopt, if_neg (hword value), getoptLetter, hkind, if_pos (hj rfl)]
  | false =>
    change getopt optstring ⟨[], [45, letter] :: value :: rest⟩ = _
    simp only [getopt, if_neg (hword []), getoptLetter, hkind, ne_eq, not_true, if_false]

theorem getopt_operands (h : Operands args) : (getopt optstring ⟨[], args⟩).1 = .finished := by
  cases args with
  | nil => rfl
  | cons arg args =>
    simp only [getopt]
    obtain rfl | rfl | hne := h
    · rfl
    · rfl
    · split
      · rfl
      · split
        · exact absurd rfl hne
        · rfl

theorem optionLoop_finished (h : (getopt optstring s).1 = .finished) :
    optionLoop (fuel + 1) config s = some config := by
  rw [optionLoop]
  revert h
  generalize getopt optstring s = result
  obtain ⟨_, rest⟩ := result
  intro h
  cases h
  rfl

theorem optionLoop_unknown (h : (getopt optstring s).1 = .unknown) :
    optionLoop (fuel + 1) config s = none := by
  rw [optionLoop]
  revert h
  generalize getopt optstring s = result
  obtain ⟨_, rest⟩ := result
  intro h
  cases h
  rfl

theorem optionLoop_option (h : getopt optstring s = (.option letter optarg, rest)) :
    optionLoop (fuel + 1) config s =
      (setOption config letter optarg).bind (optionLoop fuel · rest) := by
  rw [optionLoop, h]

theorem OptionUse.words_length (u : OptionUse) : 0 < u.words.length := by
  rw [OptionUse.words]
  split
  · exact Nat.zero_lt_one
  · exact Nat.zero_lt_two

/-- The loop of `main` accepts options and operands behind them, and nothing else. -/
theorem optionLoop_iff (hf : args.length < fuel) : optionLoop fuel config ⟨[], args⟩ = some result ↔
    ∃ uses tail, args = uses.flatMap OptionUse.words ++ tail ∧ (∀ u ∈ uses, u.Valid) ∧
      Operands tail ∧ Settled config uses result := by
  induction fuel generalizing args config with
  | zero => cases hf
  | succ fuel ih =>
    have hshorter : ∀ (u : OptionUse) rest, args = u.words ++ rest → rest.length < fuel := by
      intro u rest he
      have hl := u.words_length
      rw [he, List.length_append] at hf
      omega
    constructor
    · intro h
      obtain ⟨hg, ho⟩ | hg | ⟨u, rest, hargs, hj, hg⟩ := getopt_cases args
      · rw [optionLoop_finished hg] at h
        exact ⟨[], args, rfl, nofun, ho, settled_nil.2 (Option.some.inj h).symm⟩
      · rw [optionLoop_unknown hg] at h
        cases h
      · rw [optionLoop_option hg] at h
        obtain ⟨next, hset, hloop⟩ := Option.bind_eq_some_iff.1 h
        have hsets := setOption_sets hset
        obtain ⟨uses, tail, hrest, hvalid, ho, hs⟩ := (ih (hshorter u rest hargs)).1 hloop
        refine ⟨u :: uses, tail, ?_, ?_, ho, (settled_cons hsets.turns).2 hs⟩
        · rw [hargs, hrest, List.flatMap_cons, List.append_assoc]
        · exact List.forall_mem_cons.2 ⟨⟨hsets.known.1, hj, hsets.known.2⟩, hvalid⟩
    · intro h
      obtain ⟨uses, tail, hargs, hvalid, ho, hs⟩ := h
      cases uses with
      | nil =>
        rw [hargs, settled_nil.1 hs]
        exact optionLoop_finished (getopt_operands ho)
      | cons u uses =>
        obtain ⟨hu, hvalid⟩ := List.forall_mem_cons.1 hvalid
        obtain ⟨next, hset⟩ := hu.sets config
        rw [List.flatMap_cons, List.append_assoc] at hargs
        have hrest := hshorter u _ hargs
        rw [hargs, optionLoop_option (getopt_words hu.known hu.joined _), hset, Option.bind_some]
        have hturns := (setOption_sets hset).turns
        exact (ih hrest).2 ⟨uses, tail, rfl, hvalid, ho, (settled_cons hturns).1 hs⟩

/-- `main` accepts exactly the command lines that are options, each with its argument in its own or
the next word and a number from 1 to 65535 where one is asked for, before operands that it passes
over; each setting is then what the last option for it says, or else its default. -/
theorem parseOptions_iff (args : List Bytes) (config : ServerConfig) :
    parseOptions args = some config ↔
      ∃ uses tail, args = uses.flatMap OptionUse.words ++ tail ∧ (∀ u ∈ uses, u.Valid) ∧
        Operands tail ∧ Settled defaultConfig uses config :=
  optionLoop_iff (Nat.lt_succ_self _)

theorem Chosen.bounds (h : Chosen letter PositiveNumeral initial uses x) (hl : 1 ≤ initial)
    (hh : initial ≤ 65535) : 1 ≤ x ∧ x ≤ 65535 := by
  obtain ⟨_, rfl⟩ | ⟨_, _, _, _, _, _, hx⟩ := h
  · exact ⟨hl, hh⟩
  · obtain ⟨_, _, _, _, _, _, _, _, hlow, hhigh⟩ := hx
    exact ⟨hlow, hhigh⟩

/-- The numbers `main` passes on fit what they are for, whatever the command line. -/
theorem parseOptions_bounds (h : parseOptions args = some config) :
    (1 ≤ config.port ∧ config.port ≤ 65535) ∧
      (1 ≤ config.threadCount ∧ config.threadCount ≤ 65535) ∧
      1 ≤ config.queueCapacity ∧ config.queueCapacity ≤ 65535 := by
  obtain ⟨uses, tail, _, _, _, hs⟩ := (optionLoop_iff (Nat.lt_succ_self _)).1 h
  exact ⟨hs.port.bounds (by decide) (by decide), hs.threadCount.bounds (by decide) (by decide),
    hs.queueCapacity.bounds (by decide) (by decide)⟩

end Httpd
