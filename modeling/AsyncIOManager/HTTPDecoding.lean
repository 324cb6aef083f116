import AsyncIOManager.HTTPCommon
import AsyncIOManager.HTTPMessage

namespace AsyncIOManager

open Reactor Text HTTP

namespace HTTPDevice

/-- What a download delivers when it has received `content`. -/
def file (self : HTTPDevice) (content : Str) : ReadCall :=
  ⟨.success (some ⟨[filename self.httpPath], [content]⟩), self.parse, self.save⟩

/-- A response whose connection is closed after `cut` bytes is delivered as a success exactly when
its status is good and its body complete, and then with the body as the content. -/
def Decoded (self : HTTPDevice) (r : Response) (cut : Nat) (s : Download) : Prop :=
  ∃ c, (readHandler self .eof (r.wire.take cut) s).state.delivered = s.state.delivered ++ [c] ∧
    ((∃ buffers, c.buffers = .success buffers) ↔ r.ok ∧ r.Complete cut) ∧
    (r.ok ∧ r.Complete cut → c = self.file (r.message cut))

variable (self : HTTPDevice) (r : Response) (cut : Nat) (s : Download)

/-- Everything behind the header block is delivered, whatever the status and the fields say. -/
theorem readHandler_response :
    (readHandler self .eof (r.wire.take cut) s).state.delivered =
      s.state.delivered ++
        [if r.head.length + 4 ≤ cut then self.file (r.sent cut) else .failure (.httpDevice .noHeader)] := by
  have found : find "\r\n\r\n".toList (r.wire.take cut) = _ := r.find_cut cut
  unfold readHandler
  simp only [ne_eq, reduceCtorEq, not_true_eq_false, and_false, if_false, found]
  split
  next headerEnd hb =>
    split at hb
    next here =>
      obtain rfl := Option.some.inj hb
      rw [if_pos here, r.drop_head]
      rfl
    next => cases hb
  next hb =>
    split at hb
    next => cases hb
    next early =>
      rw [if_neg early]
      rfl

/-- A response is decoded if and only if it ends in its header block, or its status is good and
its body complete and not chunked. -/
theorem decoded_iff :
    Decoded self r cut s ↔
      cut < r.head.length + 4 ∨ (r.ok ∧ r.Complete cut ∧ r.body.isChunked = false) := by
  unfold Decoded
  rw [readHandler_response]
  by_cases here : r.head.length + 4 ≤ cut
  · rw [if_pos here]
    have same : self.file (r.sent cut) = self.file (r.message cut) ↔ r.sent cut = r.message cut := by
      simp [file]
    constructor
    · rintro ⟨c, sent, success, content⟩
      obtain rfl : self.file (r.sent cut) = c := by simpa using sent
      obtain ⟨good, complete⟩ := success.mp ⟨_, rfl⟩
      exact .inr ⟨good, complete, complete.sent_iff.mp (same.mp (content ⟨good, complete⟩))⟩
    · rintro (early | ⟨good, complete, plain⟩)
      · omega
      · exact ⟨_, rfl, iff_of_true ⟨_, rfl⟩ ⟨good, complete⟩, fun _ => same.mpr (complete.sent_iff.mpr plain)⟩
  · rw [if_neg here]
    have missing : ¬ (r.ok ∧ r.Complete cut) := fun done => here done.2.head
    refine iff_of_true ⟨_, rfl, iff_of_false ?_ missing, fun done => absurd done missing⟩ (.inl (by omega))
    rintro ⟨buffers, success⟩
    cases success

/-- The answer of a server that does not have the file. -/
def notFound : Response where
  status := 404
  reason := "Not Found".toList
  fields := [⟨"Content-Length".toList, " 9".toList, by decide, by decide, by decide, by decide⟩]
  body := .contentLength "Not Found".toList
  final := by decide
  reasonLine := by decide
  framed := ⟨by decide, by decide, by decide, by decide, by decide⟩

/-- The page of an error is delivered as the file. -/
theorem error_page_delivered :
    ∃ self r cut, ¬ Response.ok r ∧
      (readHandler self .eof (r.wire.take cut) idle).state.delivered = [self.file "Not Found".toList] ∧
      ¬ Decoded self r cut idle := by
  refine ⟨⟨['h'], "/f".toList, "443".toList, false, false⟩, notFound, 100, by decide, by decide, ?_⟩
  rw [decoded_iff]
  rintro (early | ⟨good, _⟩)
  · exact absurd early (by decide)
  · exact absurd good.2 (by decide)

end HTTPDevice

end AsyncIOManager
