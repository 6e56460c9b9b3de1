import Inspector.NetguardJni.Segment

open serial stream

namespace inspector.netguard.jni

/-- The queue of a session whose app sends the stream. The segments lie behind `low` and by
their offsets. Only the one at `position` may have been sent in part. -/
inductive Queue (stream : List UInt8) (start : BitVec 32) (position : Int) : Int → List Segment → Prop where
  | nil (low : Int) : Queue stream start position low []
  | cons {low : Int} {s : Segment} {rest : List Segment} (offset : Nat) (hlow : low < offset)
      (hhigh : offset < position + (2 ^ 30 + 2 ^ 16)) (hseq : s.seq = number start offset)
      (hslice : Slice stream offset s.data) (hlength : s.data.length < 2 ^ 16) (hsent : s.sent < 2 ^ 16)
      (hstarted : s.sent ≠ 0 → offset = position) (hrest : Queue stream start position offset rest) :
      Queue stream start position low (s :: rest)

/-- The bytes that were sent of segments still queued. -/
def sentInQueue (forward : List Segment) : Nat := (forward.map Segment.sent).sum

@[simp] theorem sentInQueue_nil : sentInQueue [] = 0 := rfl

@[simp] theorem sentInQueue_cons (s : Segment) (rest : List Segment) :
    sentInQueue (s :: rest) = s.sent + sentInQueue rest := by simp [sentInQueue]

namespace Queue

variable {stream data : List UInt8} {start : BitVec 32} {position next low low' : Int} {forward : List Segment}
  {offset : Nat} {psh : Bool}

theorem mono (hqueue : Queue stream start position low forward) (hlow : ∀ n : Nat, low < n → low' < n) :
    Queue stream start position low' forward := by
  cases hqueue with
  | nil => exact .nil low'
  | cons offset hlast hhigh hseq hslice hlength hsent hstarted hrest =>
    exact .cons offset (hlow offset hlast) hhigh hseq hslice hlength hsent hstarted hrest

/-- Nothing was sent of the segments behind the position. -/
theorem sent_eq_zero (hqueue : Queue stream start position low forward)
    (hlow : ∀ n : Nat, low < n → (n : Int) ≠ position) :
    sentInQueue forward = 0 := by
  induction hqueue with
  | nil => rfl
  | @cons low s rest offset hlast hhigh hseq hslice hlength hsent hstarted hrest ih =>
    rw [sentInQueue_cons, ih]
    · by_contra hsome
      exact hlow offset hlast (hstarted (by omega))
    · intro n hn
      exact hlow n (Int.lt_trans hlast hn)

theorem sent_lt (hqueue : Queue stream start position low forward) : sentInQueue forward < 2 ^ 16 := by
  induction hqueue with
  | nil => decide
  | @cons low s rest offset hlast hhigh hseq hslice hlength hsent hstarted hrest ih =>
    rw [sentInQueue_cons]
    by_cases hzero : s.sent = 0
    · omega
    · have hposition := hstarted hzero
      rw [hrest.sent_eq_zero fun n hn => by omega]
      omega

/-- The stream goes on at a later position, of whose queue nothing was sent. -/
theorem advance (hqueue : Queue stream start position low forward) (hzero : sentInQueue forward = 0)
    (hnext : position ≤ next) : Queue stream start next low forward := by
  induction hqueue with
  | nil low => exact .nil low
  | @cons low s rest offset hlast hhigh hseq hslice hlength hsent hstarted hrest ih =>
    rw [sentInQueue_cons] at hzero
    exact .cons offset hlast (by omega) hseq hslice hlength hsent (fun hne => absurd hzero (by omega)) (ih (by omega))

/-- A packet of the stream takes its place in the queue. -/
theorem place (hqueue : Queue stream start position low forward) (hlow : position - 2 ^ 16 ≤ low)
    (hslice : Slice stream offset data) (hlength : data.length < 2 ^ 16) (hbehind : low < offset)
    (hhigh : offset < position + (2 ^ 30 + 2 ^ 16)) :
    Queue stream start position low (place (number start offset) psh data forward) ∧
      sentInQueue (jni.place (number start offset) psh data forward) = sentInQueue forward := by
  induction hqueue with
  | nil => exact ⟨.cons offset hbehind hhigh rfl hslice hlength (by simp) (fun hne => absurd rfl hne) (.nil _), rfl⟩
  | @cons low s rest other hlast hotherHigh hseq hother hotherLength hsent hstarted hrest ih =>
    have hneg : compare_u32 s.seq (number start offset) < 0 ↔ (other : Int) < offset := by
      rw [hseq]
      exact compare_number_neg_iff (by omega) (by omega)
    have hpos : compare_u32 s.seq (number start offset) > 0 ↔ (offset : Int) < other := by
      rw [hseq]
      exact compare_number_pos_iff (by omega) (by omega)
    rw [jni.place]
    split
    · rename_i hbefore
      obtain ⟨hplaced, hsum⟩ := ih (by omega) (hneg.mp hbefore)
      exact ⟨.cons other hlast hotherHigh hseq hother hotherLength hsent hstarted hplaced, by simp [hsum]⟩
    · rename_i hnotBefore
      split
      · rename_i hafter
        refine ⟨.cons offset hbehind hhigh rfl hslice hlength (by simp) (fun hne => absurd rfl hne) ?_, by simp⟩
        exact .cons other (hpos.mp hafter) hotherHigh hseq hother hotherLength hsent hstarted hrest
      · rename_i hnotAfter
        obtain rfl : other = offset := by
          rw [hneg] at hnotBefore
          rw [hpos] at hnotAfter
          omega
        split
        · exact ⟨.cons other hlast hotherHigh hseq hother hotherLength hsent hstarted hrest, rfl⟩
        · exact ⟨.cons other hlast hotherHigh hseq hslice hlength hsent hstarted hrest, by simp⟩

end Queue

end inspector.netguard.jni
