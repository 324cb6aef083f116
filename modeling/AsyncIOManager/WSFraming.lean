import AsyncIOManager.WSCommon

namespace AsyncIOManager

open Reactor Text

namespace WSDevice

/-- The last step of a download, whose reads bring the `segments`; none if the delimiter does not come. -/
def readFile (self : WSDevice) (segments : List Str) (s : Download) : Option Download :=
  (readUntil "WSEOF".toList [] segments).map fun buffer => readHandler self .success buffer s

/-- What a download delivers when it has read `content`. -/
def file (self : WSDevice) (content : Str) : ReadCall :=
  ⟨.success (some ⟨[filename self.wsPath], [content]⟩), self.parse, self.save⟩

/-- Everything that has been read is delivered except its last five bytes. -/
theorem readFile_delivers (self : WSDevice) {segments : List Str} {before after : Str}
    (stream : segments.flatten = before ++ ("WSEOF".toList ++ after)) (first : ¬ "WSEOF".toList <:+: before)
    (s : Download) :
    ∃ k rest, (segments.take k).flatten = before ++ ("WSEOF".toList ++ rest) ∧
      (∀ j, "WSEOF".toList <:+: (segments.take j).flatten → k ≤ j) ∧
      (readFile self segments s).map (fun t => t.state.delivered) =
        some (s.state.delivered ++ [self.file ((before ++ ("WSEOF".toList ++ rest)).take (before.length + rest.length))]) := by
  have sharp : Sharp "WSEOF".toList := by decide
  have occurs : "WSEOF".toList <:+: segments.flatten := stream ▸ ⟨before, after, by rw [List.append_assoc]⟩
  have behind : "WSEOF".toList <:+: [] ++ segments.flatten := occurs
  obtain ⟨k, gives, holds, least⟩ := readUntil_first behind
  have start : (segments.take k).flatten <+: before ++ ("WSEOF".toList ++ after) := by
    rw [← stream]
    exact (List.take_prefix k segments).flatten
  obtain ⟨rest, split⟩ := sharp.first_in_prefix first start holds
  refine ⟨k, rest, split, least, ?_⟩
  have length : (before ++ ("WSEOF".toList ++ rest)).length - 5 = before.length + rest.length := by
    simp
    omega
  rw [readFile, gives, List.nil_append, split, ← length]
  rfl

/-- The content is what comes before the first delimiter if and only if a read ends with that delimiter. -/
theorem framing_iff (self : WSDevice) {segments : List Str} {before after : Str}
    (stream : segments.flatten = before ++ ("WSEOF".toList ++ after)) (first : ¬ "WSEOF".toList <:+: before)
    (s : Download) :
    (readFile self segments s).map (fun t => t.state.delivered) = some (s.state.delivered ++ [self.file before]) ↔
      ∃ k, (segments.take k).flatten = before ++ "WSEOF".toList := by
  obtain ⟨k, rest, split, least, delivered⟩ := readFile_delivers self stream first s
  have content : self.file ((before ++ ("WSEOF".toList ++ rest)).take (before.length + rest.length)) =
      self.file before ↔ rest = [] := by
    constructor
    · intro same
      have taken : (before ++ ("WSEOF".toList ++ rest)).take (before.length + rest.length) = before := by
        simpa [file] using same
      have length := congrArg List.length taken
      rw [List.length_take, List.length_append, List.length_append] at length
      exact List.length_eq_zero_iff.mp (by omega)
    · rintro rfl
      simp [file]
  rw [delivered, Option.some.injEq, List.append_cancel_left_eq, List.cons.injEq, and_iff_left rfl, content]
  constructor
  · rintro rfl
    exact ⟨k, by simpa using split⟩
  · rintro ⟨j, ends⟩
    have le := least j (ends ▸ (List.suffix_append _ _).isInfix)
    have within : (segments.take k).flatten <+: (segments.take j).flatten :=
      (List.take_prefix_take_left le).flatten
    have short := within.length_le
    rw [split, ends] at short
    simp at short
    exact List.length_eq_zero_iff.mp (by omega)

theorem framing_whole :
    (readFile ⟨['h'], "/f".toList, "443".toList, false, false⟩ ["aWSE".toList, "OF".toList] idle).map
        (fun t => t.state.delivered) =
      some [file ⟨['h'], "/f".toList, "443".toList, false, false⟩ ['a']] := by
  have stream : ["aWSE".toList, "OF".toList].flatten = ['a'] ++ ("WSEOF".toList ++ []) := rfl
  exact (framing_iff _ stream (by decide) idle).mpr ⟨2, rfl⟩

/-- What comes in the read of the delimiter changes the content. -/
theorem framing_depends_on_reads :
    ∃ (self : WSDevice) (reads others : List Str), reads.flatten = others.flatten ∧
      reads.flatten = "aWSEOFbcdef".toList ∧
      (readFile self reads idle).map (fun t => t.state.delivered) = some [self.file ['a']] ∧
      (readFile self others idle).map (fun t => t.state.delivered) = some [self.file "aWSEOF".toList] :=
  ⟨⟨['h'], "/f".toList, "443".toList, false, false⟩, ["aWSEOF".toList, "bcdef".toList], ["aWSEOFbcdef".toList],
    by decide, by decide, by decide, by decide⟩

end WSDevice

end AsyncIOManager
