import AsyncIOManager.HTTPMessage

namespace HTTP

open Text

section Grammar

def hexadecimal (c : Char) : Bool := (digit c).isSome

def unreserved (c : Char) : Bool := c.isAlphanum || c ∈ "-._~".toList

def subDelimiter (c : Char) : Bool := c ∈ "!$&'()*+,;=".toList

def tokenChar (c : Char) : Bool := c.isAlphanum || c ∈ "!#$%&'*+-.^_`|~".toList

/-- The letters of the value of a field. -/
def fieldChar (c : Char) : Bool := c = '\t' || (32 ≤ c.toNat && c.toNat ≤ 255 && c.toNat ≠ 127)

/-- Letters of one kind, and letters written as `%` and two hexadecimal digits. -/
def encoded (plain : Char → Bool) : List Char → Bool
  | [] => true
  | '%' :: a :: b :: s => hexadecimal a && hexadecimal b && encoded plain s
  | c :: s => plain c && encoded plain s

def targetChar (c : Char) : Bool := unreserved c || subDelimiter c || c ∈ ":@/?".toList

/-- A path, perhaps with a query behind it. -/
def originForm (s : List Char) : Bool := s.head? = some '/' && encoded targetChar s

def regName (s : List Char) : Bool := encoded (fun c => unreserved c || subDelimiter c) s

def decOctet (s : List Char) : Bool :=
  s.all Char.isDigit && (s.length = 1 || s.head? ≠ some '0') && (number 10 s).any (· ≤ 255)

def ipv4Address (s : List Char) : Bool :=
  (s.splitOn '.').length = 4 && (s.splitOn '.').all decOctet

def h16 (s : List Char) : Bool := 1 ≤ s.length && s.length ≤ 4 && s.all hexadecimal

/-- How many groups of 16 bits stand between colons; the last two may be written as an IPv4 address. -/
def groups (last : Bool) (s : List Char) : Option Nat :=
  let parts := s.splitOn ':'
  if s = [] then some 0
  else if parts.all h16 then some parts.length
  else if last && parts.dropLast.all h16 && parts.getLast?.any ipv4Address then some (parts.length + 1)
  else none

def ipv6Address (s : List Char) : Bool :=
  match find "::".toList s with
  | none => groups true s = some 8
  | some i =>
    match groups false (s.take i), groups true (s.drop (i + 2)) with
    | some front, some back => front + back ≤ 7
    | _, _ => false

def ipvFuture : List Char → Bool
  | [] => false
  | v :: s =>
    (v = 'v' || v = 'V') && s.takeWhile hexadecimal ≠ [] &&
      match s.dropWhile hexadecimal with
      | '.' :: address => address ≠ [] && address.all fun c => unreserved c || subDelimiter c || c = ':'
      | _ => false

def ipLiteral (s : List Char) : Bool :=
  s.head? = some '[' && s.getLast? = some ']' &&
    (ipv6Address s.tail.dropLast || ipvFuture s.tail.dropLast)

def uriHost (s : List Char) : Bool := regName s || ipLiteral s

/-- The value of a `Host` field: a host, perhaps with a port behind it. -/
def hostValue (s : List Char) : Bool :=
  uriHost s ||
    match rfind ":".toList s with
    | none => false
    | some i => uriHost (s.take i) && (s.drop (i + 1)).all Char.isDigit

end Grammar

/-- The lines of a text, which are ended by CRLF. -/
def lines : List Char → List (List Char)
  | [] => [[]]
  | '\r' :: '\n' :: s => [] :: lines s
  | c :: s => (c :: (lines s).headD []) :: (lines s).tail

/-- Text without the blanks around it. -/
def trim (s : List Char) : List Char := (s.dropWhile blank).rdropWhile blank

/-- The head of a request. -/
structure Request where
  method : List Char
  target : List Char
  fields : List (List Char × List Char)
deriving DecidableEq, Repr

namespace Request

def values (name : List Char) (r : Request) : List (List Char) :=
  (r.fields.filter fun f => f.1.map Char.toLower = name).map Prod.snd

/-- A body follows a head that has one of these fields. -/
def hasBody (r : Request) : Bool :=
  r.values "content-length".toList ≠ [] || r.values "transfer-encoding".toList ≠ []

end Request

def requestLine (line : List Char) : Option (List Char × List Char) :=
  match line.splitOn ' ' with
  | [method, target, version] =>
    if method ≠ [] ∧ method.all tokenChar ∧ originForm target ∧ version = "HTTP/1.1".toList then some (method, target)
    else none
  | _ => none

def fieldLine (line : List Char) : Option (List Char × List Char) :=
  match find ":".toList line with
  | none => none
  | some i =>
    let name := line.take i
    let value := trim (line.drop (i + 1))
    if name ≠ [] ∧ name.all tokenChar ∧ value.all fieldChar then some (name, value) else none

def fieldLines : List (List Char) → Option (List (List Char × List Char))
  | [] => some []
  | line :: rest => (fieldLine line).bind fun f => (fieldLines rest).map fun fs => f :: fs

/-- A request has one `Host` field, and that names a host. -/
def readLines (start : List Char) (texts : List (List Char)) : Option Request :=
  (requestLine start).bind fun (method, target) => (fieldLines texts).bind fun fields =>
    let r : Request := ⟨method, target, fields⟩
    if (r.values "host".toList).length = 1 ∧ (r.values "host".toList).all hostValue then some r else none

def readHead (head : List Char) : Option Request :=
  match lines head with
  | [] => none
  | start :: texts => readLines start texts

/-- Read the head of a request, and give what follows its empty line. -/
def read (s : List Char) : Option (Request × List Char) :=
  (find (crlf ++ crlf) s).bind fun i => (readHead (s.take i)).map fun r => (r, s.drop (i + 4))

section Letters

variable {c : Char} {s : List Char} {plain : Char → Bool}

/-- Letters that are seen. -/
def Printable (c : Char) : Prop := 32 < c.toNat ∧ c.toNat < 127

instance (c : Char) : Decidable (Printable c) := inferInstanceAs (Decidable (_ ∧ _))

theorem Printable.fieldChar (h : Printable c) : fieldChar c = true := by
  obtain ⟨low, high⟩ := h
  have other : c.toNat ≠ 127 := by omega
  simp [HTTP.fieldChar, other]
  omega

theorem Printable.blank (h : Printable c) : blank c = false := by
  have space : c ≠ ' ' := by
    rintro rfl
    exact absurd h (by decide)
  have tab : c ≠ '\t' := by
    rintro rfl
    exact absurd h (by decide)
  simp [HTTP.blank, space, tab]

theorem printable_of_range {a z : Char} (first : ' ' < a) (last : z < '\x7f') (h : a ≤ c) (h' : c ≤ z) :
    Printable c := by
  constructor
  · exact Nat.lt_of_lt_of_le first h
  · exact Nat.lt_of_le_of_lt h' last

theorem alphanum_printable (h : c.isAlphanum = true) : Printable c := by
  simp only [Char.isAlphanum, Char.isAlpha, Char.isUpper, Char.isLower, Char.isDigit, Bool.or_eq_true,
    Bool.and_eq_true, decide_eq_true_eq, ge_iff_le] at h
  rcases h with (⟨low, high⟩ | ⟨low, high⟩) | ⟨low, high⟩
  · exact printable_of_range (a := 'A') (z := 'Z') (by decide) (by decide) low high
  · exact printable_of_range (a := 'a') (z := 'z') (by decide) (by decide) low high
  · exact printable_of_range (a := '0') (z := '9') (by decide) (by decide) low high

theorem hexadecimal_printable (h : hexadecimal c = true) : Printable c := by
  unfold hexadecimal digit at h
  split at h
  next range => exact printable_of_range (by decide) (by decide) range.1 range.2
  next =>
    split at h
    next range => exact printable_of_range (by decide) (by decide) range.1 range.2
    next =>
      split at h
      next range => exact printable_of_range (by decide) (by decide) range.1 range.2
      next => cases h

theorem unreserved_printable (h : unreserved c = true) : Printable c := by
  rcases Bool.or_eq_true_iff.mp h with letter | mark
  · exact alphanum_printable letter
  · have marks : ∀ d ∈ "-._~".toList, Printable d := by simp [Printable]
    exact marks c (of_decide_eq_true mark)

theorem subDelimiter_printable (h : subDelimiter c = true) : Printable c := by
  have marks : ∀ d ∈ "!$&'()*+,;=".toList, Printable d := by simp [Printable]
  exact marks c (of_decide_eq_true h)

theorem targetChar_printable (h : targetChar c = true) : Printable c := by
  rcases Bool.or_eq_true_iff.mp h with letter | mark
  · rcases Bool.or_eq_true_iff.mp letter with plain | delimiter
    · exact unreserved_printable plain
    · exact subDelimiter_printable delimiter
  · have marks : ∀ d ∈ ":@/?".toList, Printable d := by simp [Printable]
    exact marks c (of_decide_eq_true mark)

theorem encoded_printable (letters : ∀ c, plain c = true → Printable c) (h : encoded plain s = true) :
    ∀ c ∈ s, Printable c := by
  fun_induction encoded plain s with
  | case1 => simp
  | case2 a b s ih =>
    simp only [Bool.and_eq_true] at h
    obtain ⟨⟨first, second⟩, rest⟩ := h
    intro c mem
    simp only [List.mem_cons] at mem
    rcases mem with rfl | rfl | rfl | later
    · decide
    · exact hexadecimal_printable first
    · exact hexadecimal_printable second
    · exact ih rest c later
  | case3 d s _ ih =>
    obtain ⟨first, rest⟩ := Bool.and_eq_true_iff.mp h
    intro c mem
    rcases List.mem_cons.mp mem with rfl | later
    · exact letters c first
    · exact ih rest c later

theorem originForm_printable (h : originForm s = true) : ∀ c ∈ s, Printable c :=
  encoded_printable (fun _ => targetChar_printable) (Bool.and_eq_true_iff.mp h).2

/-- An IPv6 address has a colon. -/
theorem colon_of_ipv6Address (h : ipv6Address s = true) : ':' ∈ s := by
  by_contra plain
  have absent : ¬ "::".toList <:+: s := fun occurs => plain (occurs.subset (by simp))
  have whole : s.splitOn ':' = [s] := by
    have split : ([':'].intercalate [s]).splitOn ':' = [s] :=
      List.splitOn_intercalate ':' (by simpa using plain) (by simp)
    simpa using split
  unfold ipv6Address at h
  rw [find_none_iff.mpr absent] at h
  have count := of_decide_eq_true h
  simp only [groups, whole] at count
  split at count
  next => cases count
  next =>
    split at count
    next => cases count
    next =>
      split at count
      next => cases count
      next => cases count

theorem ipvFuture_printable (h : ipvFuture s = true) : ∀ c ∈ s, Printable c := by
  cases s with
  | nil => cases h
  | cons v s =>
    simp only [ipvFuture, Bool.and_eq_true, Bool.or_eq_true, decide_eq_true_eq] at h
    obtain ⟨⟨version, _⟩, h⟩ := h
    split at h
    next address split =>
      simp only [Bool.and_eq_true, List.all_eq_true, Bool.or_eq_true, decide_eq_true_eq] at h
      intro c mem
      rcases List.mem_cons.mp mem with rfl | later
      · rcases version with rfl | rfl <;> decide
      · rw [← List.takeWhile_append_dropWhile (p := hexadecimal) (l := s), split] at later
        rcases List.mem_append.mp later with digits | rest
        · exact hexadecimal_printable (List.mem_takeWhile_imp digits)
        · rcases List.mem_cons.mp rest with rfl | letter
          · decide
          · rcases h.2 c letter with (plain | delimiter) | rfl
            · exact unreserved_printable plain
            · exact subDelimiter_printable delimiter
            · decide
    next => cases h

/-- A host without a colon has only letters that are seen. -/
theorem uriHost_printable (plain : ':' ∉ s) (h : uriHost s = true) : ∀ c ∈ s, Printable c := by
  rcases Bool.or_eq_true_iff.mp h with name | literal
  · refine encoded_printable ?_ name
    intro c letter
    rcases Bool.or_eq_true_iff.mp letter with plain | delimiter
    · exact unreserved_printable plain
    · exact subDelimiter_printable delimiter
  · simp only [ipLiteral, Bool.and_eq_true, decide_eq_true_eq] at literal
    obtain ⟨⟨starts, ends⟩, address⟩ := literal
    obtain ⟨tail, rfl⟩ := List.head?_eq_some_iff.mp starts
    obtain ⟨front, same⟩ := List.getLast?_eq_some_iff.mp ends
    cases front with
    | nil => cases same
    | cons d middle =>
      rw [List.cons_append, List.cons.injEq] at same
      obtain ⟨rfl, rfl⟩ := same
      rw [List.tail_cons, List.dropLast_concat] at address
      have future : ipvFuture middle = true := by
        rcases Bool.or_eq_true_iff.mp address with old | future
        · exact absurd (colon_of_ipv6Address old) fun mem => plain (by simp [mem])
        · exact future
      intro c mem
      simp only [List.mem_cons, List.mem_append, List.not_mem_nil, or_false] at mem
      rcases mem with rfl | inside | rfl
      · decide
      · exact ipvFuture_printable future c inside
      · decide

/-- A host without a colon is the value of a `Host` field as it is the host of a URI. -/
theorem hostValue_iff (plain : ':' ∉ s) : hostValue s = uriHost s := by
  have none : rfind ":".toList s = none := rfind_none_iff.mpr plain
  rw [hostValue, none, Bool.or_false]

end Letters

section Reading

theorem lines_cons {c : Char} (other : c ≠ '\r') (s : List Char) :
    lines (c :: s) = (c :: (lines s).headD []) :: (lines s).tail := by
  rw [lines]
  rintro _ rfl
  exact absurd rfl other

theorem lines_crlf (s : List Char) : lines (crlf ++ s) = [] :: lines s := by
  rw [crlf, List.cons_append, List.cons_append, List.nil_append, lines]

theorem lines_append {line : List Char} (plain : '\r' ∉ line) (s : List Char) :
    lines (line ++ (crlf ++ s)) = line :: lines s := by
  induction line with
  | nil => exact lines_crlf s
  | cons c line ih =>
    have other : c ≠ '\r' := fun same => plain (same ▸ List.mem_cons_self)
    rw [List.cons_append, lines_cons other, ih fun mem => plain (List.mem_cons_of_mem _ mem)]
    rfl

theorem lines_plain {line : List Char} (plain : '\r' ∉ line) : lines line = [line] := by
  induction line with
  | nil => rfl
  | cons c line ih =>
    have other : c ≠ '\r' := fun same => plain (same ▸ List.mem_cons_self)
    rw [lines_cons other, ih fun mem => plain (List.mem_cons_of_mem _ mem)]
    rfl

theorem lines_flatMap {line : List Char} (plain : '\r' ∉ line) {rest : List (List Char)}
    (restPlain : ∀ l ∈ rest, '\r' ∉ l) : lines (line ++ rest.flatMap (crlf ++ ·)) = line :: rest := by
  induction rest generalizing line with
  | nil =>
    rw [List.flatMap_nil, List.append_nil]
    exact lines_plain plain
  | cons l rest ih =>
    rw [List.flatMap_cons, List.append_assoc, lines_append plain,
      ih (restPlain l List.mem_cons_self) fun k hk => restPlain k (List.mem_cons_of_mem _ hk)]

theorem requestLine_target {line method target : List Char} (h : requestLine line = some (method, target)) :
    originForm target = true := by
  unfold requestLine at h
  split at h
  next =>
    split at h
    next fine =>
      cases h
      exact fine.2.2.1
    next => cases h
  next => cases h

theorem fieldLine_value {line : List Char} {f : List Char × List Char} (h : fieldLine line = some f) :
    f.2.all fieldChar = true := by
  unfold fieldLine at h
  split at h
  next => cases h
  next =>
    simp only at h
    split at h
    next fine =>
      cases h
      exact fine.2.2
    next => cases h

theorem fieldLines_values {lines : List (List Char)} {fields : List (List Char × List Char)}
    (h : fieldLines lines = some fields) : ∀ f ∈ fields, f.2.all fieldChar = true := by
  induction lines generalizing fields with
  | nil =>
    cases h
    simp
  | cons line rest ih =>
    obtain ⟨f, here, h⟩ := Option.bind_eq_some_iff.mp h
    obtain ⟨fs, later, rfl⟩ := Option.map_eq_some_iff.mp h
    intro g mem
    rcases List.mem_cons.mp mem with rfl | behind
    · exact fieldLine_value here
    · exact ih later g behind

theorem readLines_some {start : List Char} {texts : List (List Char)} {r : Request}
    (h : readLines start texts = some r) :
    requestLine start = some (r.method, r.target) ∧ fieldLines texts = some r.fields ∧
      ∀ v ∈ r.values "host".toList, hostValue v = true := by
  obtain ⟨⟨method, target⟩, line, h⟩ := Option.bind_eq_some_iff.mp h
  obtain ⟨fields, values, h⟩ := Option.bind_eq_some_iff.mp h
  simp only at h
  split at h
  next valid =>
    cases h
    exact ⟨line, values, List.all_eq_true.mp valid.2⟩
  next => cases h

/-- What has been read has a target, values of fields and the name of a host. -/
theorem read_sound {s rest : List Char} {r : Request} (h : read s = some (r, rest)) :
    originForm r.target = true ∧ (∀ f ∈ r.fields, f.2.all fieldChar = true) ∧
      ∀ v ∈ r.values "host".toList, hostValue v = true := by
  obtain ⟨i, _, h⟩ := Option.bind_eq_some_iff.mp h
  obtain ⟨r', head, same⟩ := Option.map_eq_some_iff.mp h
  cases same
  unfold readHead at head
  split at head
  next => cases head
  next start texts _ =>
    obtain ⟨line, values, hosts⟩ := readLines_some head
    exact ⟨requestLine_target line, fieldLines_values values, hosts⟩

/-- The lines of a head are read one by one. -/
theorem read_lines {start : List Char} (plain : '\r' ∉ start) {texts : List (List Char)}
    (textsPlain : ∀ l ∈ texts, l ≠ [] ∧ '\r' ∉ l) (rest : List Char) :
    read (start ++ texts.flatMap (crlf ++ ·) ++ (crlf ++ crlf ++ rest)) =
      (readLines start texts).map fun r => (r, rest) := by
  have found := find_lines plain textsPlain rest
  have split := lines_flatMap plain fun l hl => (textsPlain l hl).2
  have behind : (start ++ texts.flatMap (crlf ++ ·) ++ (crlf ++ crlf ++ rest)).drop
      ((start ++ texts.flatMap (crlf ++ ·)).length + 4) = rest := by
    rw [← List.append_assoc _ (crlf ++ crlf)]
    exact List.drop_left' (by rw [List.length_append]; rfl)
  rw [read, found, Option.bind_some, List.take_left, behind, readHead, split]

theorem requestLine_text {method target : List Char} (token : method ≠ [] ∧ method.all tokenChar = true)
    (methodPlain : ' ' ∉ method) (targetPlain : ' ' ∉ target) :
    requestLine (method ++ ' ' :: (target ++ ' ' :: "HTTP/1.1".toList)) =
      if originForm target = true then some (method, target) else none := by
  have version : ' ' ∉ "HTTP/1.1".toList := by decide
  have plain : ∀ l ∈ [method, target, "HTTP/1.1".toList], ' ' ∉ l := by
    simp only [List.mem_cons, List.not_mem_nil, or_false]
    rintro l (rfl | rfl | rfl) <;> assumption
  have split : ([' '].intercalate [method, target, "HTTP/1.1".toList]).splitOn ' ' =
      [method, target, "HTTP/1.1".toList] := List.splitOn_intercalate ' ' plain (by simp)
  have text : [' '].intercalate [method, target, "HTTP/1.1".toList] =
      method ++ ' ' :: (target ++ ' ' :: "HTTP/1.1".toList) := by simp [List.intercalate, List.intersperse]
  rw [text] at split
  rw [requestLine, split]
  simp [token.1, token.2]

theorem fieldLine_text {name : List Char} (token : name ≠ [] ∧ name.all tokenChar = true) (value : List Char) :
    fieldLine (name ++ ':' :: value) =
      if (trim value).all fieldChar = true then some (name, trim value) else none := by
  have plain : ':' ∉ name := by
    intro mem
    exact absurd (List.all_eq_true.mp token.2 _ mem) (by decide)
  have found : find ":".toList (name ++ ':' :: value) = some name.length := find_char plain
  have behind : (name ++ ':' :: value).drop (name.length + 1) = value := by
    rw [List.append_cons]
    exact List.drop_left' (by simp)
  rw [fieldLine, found]
  simp only [List.take_left, behind]
  simp [token.1, token.2]

/-- A blank in front of a value is not part of it. -/
theorem trim_blank {c : Char} (h : blank c = true) (s : List Char) : trim (c :: s) = trim s := by
  rw [trim, List.dropWhile_cons_of_pos h, trim]

theorem trim_length_le (s : List Char) : (trim s).length ≤ s.length := by
  have right : trim s <+: s.dropWhile blank := List.rdropWhile_prefix ..
  have left : s.dropWhile blank <:+ s := List.dropWhile_suffix ..
  exact right.length_le.trans left.length_le

theorem trim_printable {s : List Char} (h : ∀ c ∈ s, Printable c) : trim s = s := by
  have seen (c : Char) (mem : c ∈ s) : ¬ blank c = true := by
    rw [(h c mem).blank]
    exact Bool.false_ne_true
  have left : s.dropWhile blank = s := List.dropWhile_eq_self_iff.mpr fun some => seen _ (List.getElem_mem some)
  rw [trim, left]
  exact List.rdropWhile_eq_self_iff.mpr fun some => seen _ (List.getLast_mem some)

end Reading

end HTTP
