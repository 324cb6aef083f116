import AsyncIOManager.URLStringUtil

namespace AsyncIOManager

open Text

/-- The text after the last dot, empty if there is no dot. -/
def afterDot (name : Str) : Str :=
  match rfind ".".toList name with
  | none => []
  | some start => name.drop (start + 1)

theorem afterDot_plain {name : Str} (plain : '.' ∉ name) : afterDot name = [] := by
  have none : rfind ".".toList name = none := rfind_none_iff.mpr plain
  rw [afterDot, none]

theorem afterDot_last (front : Str) {extension : Str} (plain : '.' ∉ extension) :
    afterDot (front ++ '.' :: extension) = extension := by
  have last : rfind ".".toList (front ++ '.' :: extension) = some front.length := rfind_last front plain
  rw [afterDot, last]
  simp

/-- The extension of the file that a path names. -/
def fileExtension (path : Str) : Str := afterDot (filename path)

theorem slash_not_mem_filename (path : Str) : '/' ∉ filename path := by
  rcases filename_cases path with ⟨plain, same⟩ | ⟨_, _, _, plain, same⟩
  · rwa [same]
  · rwa [same]

theorem slash_not_mem_fileExtension (path : Str) : '/' ∉ fileExtension path := by
  intro mem
  unfold fileExtension afterDot at mem
  split at mem
  next => cases mem
  next => exact slash_not_mem_filename path (List.mem_of_mem_drop mem)

/-- The last dot of a path is the last dot of its file name if the name has one, or the path none. -/
theorem afterDot_eq_fileExtension_iff (path : Str) :
    afterDot path = fileExtension path ↔ '.' ∈ filename path ∨ '.' ∉ path := by
  rcases filename_cases path with ⟨_, same⟩ | ⟨dir, name, rfl, _, same⟩
  · rw [fileExtension, same]
    exact iff_of_true rfl (em _)
  · rw [fileExtension, same]
    by_cases dot : '.' ∈ name
    · obtain ⟨front, extension, rfl, last⟩ := last_occurrence dot
      refine iff_of_true ?_ (.inl dot)
      rw [afterDot_last front last, ← List.cons_append, ← List.append_assoc]
      exact afterDot_last (dir ++ '/' :: front) last
    · rw [afterDot_plain dot]
      by_cases above : '.' ∈ dir
      · obtain ⟨front, back, rfl, last⟩ := last_occurrence above
        have here : '.' ∉ back ++ '/' :: name := by simp [last, dot]
        refine iff_of_false ?_ (by simp [dot])
        rw [List.append_assoc, List.cons_append, afterDot_last front here]
        simp
      · have none : '.' ∉ dir ++ '/' :: name := by simp [above, dot]
        exact iff_of_true (afterDot_plain none) (.inr none)

/-- The extension of a URL is what follows the last dot of its whole base. -/
theorem getURLComponents_extension (url : Str) :
    (getURLComponents url).2.extension = afterDot (getURLComponents url).2.base := by
  unfold getURLComponents
  split
  next => rfl
  next => split <;> rfl

namespace FileManager

/-- The registered loaders and parsers by what they do; an exception is given by its text. -/
structure Registry (α : Type) where
  loaders : Str → Option (Str → Except Str α)
  parsers : Str → Option (α → Except Str α)

variable {α : Type}

def parseData (m : Registry α) (suffix : Str) (data : α) : Except Str α :=
  match m.parsers suffix with
  | none => .error ("No parser registered for suffix ".toList ++ suffix)
  | some parser => parser data

def loadFile (m : Registry α) (url : Str) (parse : Bool) : Except Str α :=
  let o := (getURLComponents url).2
  match m.loaders o.pre with
  | none => .error ("No loader registered for prefix ".toList ++ o.pre)
  | some loader => do
    let data ← loader o.base
    if parse then parseData m o.extension data else return data

theorem loadFile_parsed (m : Registry α) {url : Str} {loader : Str → Except Str α}
    (registered : m.loaders (getURLComponents url).2.pre = some loader) :
    loadFile m url true =
      (loader (getURLComponents url).2.base).bind (parseData m (getURLComponents url).2.extension) := by
  simp only [loadFile, registered, if_true]
  rfl

/-- The extension of a URL is that of its file, and `LoadFile` parses by it. -/
def ExtensionOfFile (url : Str) : Prop :=
  let o := (getURLComponents url).2
  o.extension = fileExtension o.base ∧ '/' ∉ o.extension ∧
    ∀ (α : Type) (m : Registry α) loader, m.loaders o.pre = some loader →
      loadFile m url true = (loader o.base).bind (parseData m (fileExtension o.base))

/-- The extension is that of the file if and only if the file name has a dot, or nothing before it has one. -/
theorem extension_of_file_iff (url : Str) :
    ExtensionOfFile url ↔
      '.' ∈ filename (getURLComponents url).2.base ∨ '.' ∉ (getURLComponents url).2.base := by
  rw [← afterDot_eq_fileExtension_iff, ← getURLComponents_extension]
  constructor
  · intro h
    exact h.1
  · intro same
    refine ⟨same, same ▸ slash_not_mem_fileExtension _, ?_⟩
    intro α m loader registered
    rw [loadFile_parsed m registered, same]

/-- A file without an extension is parsed by what follows the last dot of its host. -/
theorem host_is_extension :
    (getURLComponents "https://a.b/c".toList).1 = true ∧
      (getURLComponents "https://a.b/c".toList).2.extension = "b/c".toList ∧
      fileExtension (getURLComponents "https://a.b/c".toList).2.base = [] ∧
      ¬ ExtensionOfFile "https://a.b/c".toList := by
  refine ⟨by decide, by decide, by decide, ?_⟩
  intro same
  exact absurd same.1 (by decide)

end FileManager

end AsyncIOManager
