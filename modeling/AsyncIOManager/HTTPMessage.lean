import AsyncIOManager.Text

namespace HTTP

open Text

def crlf : List Char := ['\r', '\n']

/-- Text that stays within one line. -/
def Line (s : List Char) : Prop := '\r' ∉ s ∧ '\n' ∉ s

instance (s : List Char) : Decidable (Line s) := inferInstanceAs (Decidable (_ ∧ _))

structure Field where
  name : List Char
  value : List Char
  nameSome : name ≠ []
  namePlain : ':' ∉ name
  nameLine : Line name
  valueLine : Line value

def Field.text (f : Field) : List Char := f.name ++ ':' :: f.value

/-- The names of fields do not depend on case. -/
def Field.isNamed (name : List Char) (f : Field) : Bool := f.name.map Char.toLower = name

def blank (c : Char) : Bool := c = ' ' || c = '\t'

/-- The value without the blanks around it. -/
def Field.content (f : Field) : List Char :=
  ((f.value.dropWhile blank).reverse.dropWhile blank).reverse

def digit (c : Char) : Option Nat :=
  if '0' ≤ c ∧ c ≤ '9' then some (c.toNat - '0'.toNat)
  else if 'a' ≤ c ∧ c ≤ 'f' then some (c.toNat - 'a'.toNat + 10)
  else if 'A' ≤ c ∧ c ≤ 'F' then some (c.toNat - 'A'.toNat + 10)
  else none

/-- The number that a text of digits denotes. -/
def number (base : Nat) (s : List Char) : Option Nat :=
  if s = [] then none
  else s.foldlM (fun n c => (digit c).bind fun d => if d < base then some (base * n + d) else none) 0

/-- A chunk of a body: the size in hexadecimal digits, an extension and the data. -/
structure Chunk where
  size : List Char
  extension : List Char
  data : List Char
  dataSome : data ≠ []
  sized : number 16 size = some data.length
  extensionLine : Line extension
  extensionPlain : extension = [] ∨ extension.head? = some ';'

def Chunk.text (c : Chunk) : List Char := c.size ++ c.extension ++ crlf ++ c.data ++ crlf

/-- The body of a response by how its end is told. The last chunk has no data, and a trailer
of fields follows it. -/
inductive Body
  | none
  | contentLength (content : List Char)
  | chunked (chunks : List Chunk) (last : List Char) (trailer : List Field)
  | close (content : List Char)

namespace Body

def content : Body → List Char
  | none => []
  | contentLength content => content
  | chunked chunks _ _ => chunks.flatMap Chunk.data
  | close content => content

/-- What is sent behind the header block. -/
def payload : Body → List Char
  | none => []
  | contentLength content => content
  | chunked chunks last trailer =>
    chunks.flatMap Chunk.text ++ last ++ crlf ++ trailer.flatMap (fun f => f.text ++ crlf) ++ crlf
  | close content => content

def isChunked : Body → Bool
  | chunked _ _ _ => true
  | _ => false

/-- The status and the fields tell how the end of the body is told. -/
def Framed (body : Body) (status : Nat) (fields : List Field) : Prop :=
  let lengths := (fields.filter (Field.isNamed "content-length".toList)).map fun f => number 10 f.content
  let codings := (fields.filter (Field.isNamed "transfer-encoding".toList)).map fun f =>
    f.content.map Char.toLower
  match body with
  | none => status = 204 ∨ status = 304
  | contentLength content =>
    status ≠ 204 ∧ status ≠ 304 ∧ codings = [] ∧ lengths ≠ [] ∧ ∀ n ∈ lengths, n = some content.length
  | chunked _ last _ =>
    status ≠ 204 ∧ status ≠ 304 ∧ codings = ["chunked".toList] ∧ lengths = [] ∧
      number 16 (upTo [';'] last) = some 0 ∧ Line last
  | close _ => status ≠ 204 ∧ status ≠ 304 ∧ codings = [] ∧ lengths = []

theorem data_le_text (chunks : List Chunk) :
    (chunks.flatMap Chunk.data).length ≤ (chunks.flatMap Chunk.text).length := by
  induction chunks with
  | nil => exact Nat.le_refl _
  | cons c chunks ih =>
    rw [List.flatMap_cons, List.flatMap_cons, List.length_append, List.length_append]
    have own : c.data.length ≤ c.text.length := by
      simp [Chunk.text]
      omega
    omega

/-- The chunks take more room than the data in them. -/
theorem content_lt_payload {body : Body} (chunked : body.isChunked = true) :
    body.content.length < body.payload.length := by
  cases body with
  | chunked chunks last trailer =>
    have le := data_le_text chunks
    have two : crlf.length = 2 := rfl
    simp only [content, payload, List.length_append]
    omega
  | _ => cases chunked

end Body

theorem no_blank_line {c : Char} (other : c ≠ '\r') (s : List Char) : ¬ crlf ++ crlf <+: c :: s := by
  intro occurs
  exact other (List.cons_prefix_cons.mp occurs).1.symm

/-- A line without an end of line is skipped. -/
theorem find_line {line : List Char} (plain : '\r' ∉ line) (s : List Char) :
    find (crlf ++ crlf) (line ++ s) = (find (crlf ++ crlf) s).map (· + line.length) := by
  refine find_append fun j hj => ?_
  obtain ⟨c, rest, split⟩ := List.exists_cons_of_length_pos (l := line.drop j) (by simp; omega)
  rw [split]
  refine no_blank_line ?_ (rest ++ s)
  rintro rfl
  exact plain (List.mem_of_mem_drop (split ▸ List.mem_cons_self))

/-- An end of line before a line that is not empty is skipped. -/
theorem find_crlf {line : List Char} (some : line ≠ []) (plain : '\r' ∉ line) (s : List Char) :
    find (crlf ++ crlf) (crlf ++ (line ++ s)) = (find (crlf ++ crlf) (line ++ s)).map (· + 2) := by
  obtain ⟨c, rest, rfl⟩ := List.exists_cons_of_ne_nil some
  have other : c ≠ '\r' := by
    rintro rfl
    exact plain List.mem_cons_self
  have clear : ∀ j < crlf.length, ¬ crlf ++ crlf <+: crlf.drop j ++ (c :: rest ++ s) := by
    intro j hj
    match j with
    | 0 =>
      intro occurs
      have next : crlf <+: c :: rest ++ s := (List.prefix_append_right_inj crlf).mp occurs
      exact other (List.cons_prefix_cons.mp next).1.symm
    | 1 => exact no_blank_line (by decide) _
  exact find_append clear

/-- The first empty line comes behind the lines. -/
theorem find_lines {line : List Char} (plain : '\r' ∉ line) {lines : List (List Char)}
    (linesPlain : ∀ l ∈ lines, l ≠ [] ∧ '\r' ∉ l) (rest : List Char) :
    find (crlf ++ crlf) (line ++ lines.flatMap (crlf ++ ·) ++ (crlf ++ crlf ++ rest)) =
      some (line ++ lines.flatMap (crlf ++ ·)).length := by
  induction lines generalizing line with
  | nil =>
    rw [List.flatMap_nil, List.append_nil, find_line plain, find_self]
    simp
  | cons l lines ih =>
    obtain ⟨some, own⟩ := linesPlain l List.mem_cons_self
    have later := ih own fun l hl => linesPlain l (List.mem_cons_of_mem _ hl)
    rw [List.flatMap_cons, List.append_assoc line, find_line plain, List.append_assoc, List.append_assoc,
      find_crlf some own, ← List.append_assoc l, later]
    simp [crlf]
    omega

/-- A final response that is well formed. -/
structure Response where
  status : Nat
  reason : List Char
  fields : List Field
  body : Body
  final : 200 ≤ status ∧ status < 1000
  reasonLine : Line reason
  framed : body.Framed status fields

namespace Response

def statusLine (r : Response) : List Char :=
  "HTTP/1.1 ".toList ++ Nat.toDigits 10 r.status ++ ' ' :: r.reason

def head (r : Response) : List Char := r.statusLine ++ (r.fields.map Field.text).flatMap (crlf ++ ·)

def wire (r : Response) : List Char := r.head ++ (crlf ++ crlf ++ r.body.payload)

def ok (r : Response) : Prop := 200 ≤ r.status ∧ r.status < 300

instance (r : Response) : Decidable r.ok := inferInstanceAs (Decidable (_ ∧ _))

/-- What has been sent of the body when the connection closes after `cut` bytes. -/
def sent (r : Response) (cut : Nat) : List Char := r.body.payload.take (cut - (r.head.length + 4))

/-- A connection that is closed after `cut` bytes leaves no part of the body missing. The close
is the end of a body that only ends there. -/
def Complete (r : Response) (cut : Nat) : Prop :=
  match r.body with
  | .close _ => r.head.length + 4 ≤ cut
  | _ => r.wire.length ≤ cut

/-- The body of the message that a close after `cut` bytes ends. -/
def message (r : Response) (cut : Nat) : List Char :=
  match r.body with
  | .close _ => r.sent cut
  | body => body.content

theorem statusLine_plain (r : Response) : '\r' ∉ r.statusLine := by
  intro mem
  rcases List.mem_append.mp mem with front | back
  · rcases List.mem_append.mp front with version | code
    · exact absurd version (by decide)
    · have digit := Nat.isDigit_of_mem_toDigits (by decide : 0 < 10) (by decide : 10 ≤ 10) code
      simp at digit
  · rcases List.mem_cons.mp back with space | reason
    · exact absurd space (by decide)
    · exact r.reasonLine.1 reason

theorem find_head (r : Response) : find (crlf ++ crlf) r.wire = some r.head.length := by
  refine find_lines r.statusLine_plain ?_ r.body.payload
  intro l hl
  obtain ⟨f, _, rfl⟩ := List.mem_map.mp hl
  refine ⟨by simp [Field.text], ?_⟩
  simp [Field.text, f.nameLine.1, f.valueLine.1]

/-- A connection that closes in the header block leaves no empty line; after it, the body
starts behind the first one. -/
theorem find_cut (r : Response) (cut : Nat) :
    find (crlf ++ crlf) (r.wire.take cut) = if r.head.length + 4 ≤ cut then some r.head.length else none :=
  find_take (by decide) r.find_head cut

theorem wire_length (r : Response) : r.wire.length = r.head.length + 4 + r.body.payload.length := by
  simp [wire, crlf]
  omega

theorem drop_head (r : Response) (cut : Nat) : (r.wire.take cut).drop (r.head.length + 4) = r.sent cut := by
  have behind : r.wire.drop (r.head.length + 4) = r.body.payload := by
    rw [wire, ← List.append_assoc]
    exact List.drop_left' (by simp [crlf])
  rw [List.drop_take, behind, sent]

theorem Complete.head {r : Response} {cut : Nat} (complete : r.Complete cut) : r.head.length + 4 ≤ cut := by
  have length := r.wire_length
  unfold Complete at complete
  split at complete
  next => exact complete
  next => omega

/-- What has been sent is the message when it is complete and not chunked, and never when it is
complete and chunked. -/
theorem Complete.sent_iff {r : Response} {cut : Nat} (complete : r.Complete cut) :
    r.sent cut = r.message cut ↔ r.body.isChunked = false := by
  have length := r.wire_length
  have whole (here : r.wire.length ≤ cut) : r.sent cut = r.body.payload := List.take_of_length_le (by omega)
  unfold Complete at complete
  unfold message
  split at complete
  next content hb => simp [hb, Body.isChunked]
  next other =>
    rw [whole complete]
    cases hb : r.body with
    | close content => exact absurd hb (other content)
    | chunked chunks last trailer =>
      refine iff_of_false (fun same => ?_) (by simp [Body.isChunked])
      have lt := @Body.content_lt_payload (.chunked chunks last trailer) rfl
      rw [same] at lt
      exact Nat.lt_irrefl _ lt
    | _ => exact iff_of_true rfl rfl

end Response

end HTTP
