import Inspector.Dex.After

namespace inspector.dex

open Section

variable {α β : Type}

/-- A section and an encoding that belong together: what is read is encoded at the
position, and valid values are read back from their encoding. What the section
moves over is what it reads. -/
structure Codec (s : Section α) (encode : α → List UInt8) (Valid : α → Prop) : Prop where
  sound : ∀ {data position a next}, (s position).run data = .ok (a, next) → Valid a ∧
    data.drop position = encode a ++ data.drop next ∧ next = position + (encode a).length ∧
    ∀ q, q ∈ (s position).reads data ↔ position ≤ q ∧ q < next
  complete : ∀ {data position a rest}, Valid a → data.drop position = encode a ++ rest →
    (s position).run data = .ok (a, position + (encode a).length)

theorem drop_of_append {data first rest : List UInt8} {position : Nat} (hdrop : data.drop position = first ++ rest) :
    data.drop (position + first.length) = rest := by
  rw [← List.drop_drop, hdrop, List.drop_left]

namespace Codec

theorem pure (b : β) : Codec (pure b) (fun _ => []) (fun a => a = b) where
  sound := by
    intro data position a next hrun
    cases hrun
    refine ⟨rfl, rfl, rfl, fun q => ?_⟩
    exact iff_of_false List.not_mem_nil (by simp)
  complete := by
    intro data position a rest hvalid _
    subst hvalid
    rfl

/-- One section after the other. What the first has read is a part of the result. -/
theorem bind {s : Section α} {f : α → Section β} {encode : α → List UInt8} {Valid : α → Prop}
    {encode' : β → List UInt8} {Valid' : α → β → Prop} (part : β → α) (hs : Codec s encode Valid)
    (hf : ∀ a, Codec (f a) encode' (Valid' a)) (hpart : ∀ a b, Valid' a b → part b = a) :
    Codec (s >>= f) (fun b => encode (part b) ++ encode' b) (fun b => Valid (part b) ∧ Valid' (part b) b) where
  sound := by
    intro data position b last hrun
    obtain ⟨a, next, hfirst, hsecond⟩ := run_bind_eq_ok.mp hrun
    obtain ⟨hvalid, hdrop, hnext, hreads⟩ := hs.sound hfirst
    obtain ⟨hvalid', hdrop', hlast, hreads'⟩ := (hf a).sound hsecond
    have ha := hpart a b hvalid'
    subst ha
    refine ⟨⟨hvalid, hvalid'⟩, ?_, ?_, ?_⟩
    · rw [hdrop, hdrop', List.append_assoc]
    · rw [hlast, hnext, List.length_append]
      omega
    · intro q
      rw [mem_reads_bind_of_ok hfirst, hreads, hreads']
      omega
  complete := by
    intro data position b rest hvalid hdrop
    rw [List.append_assoc] at hdrop
    have hfirst := hs.complete hvalid.1 hdrop
    have hsecond := (hf (part b)).complete hvalid.2 (drop_of_append hdrop)
    rw [run_bind_eq_ok]
    refine ⟨_, _, hfirst, ?_⟩
    rw [hsecond, List.length_append]
    congr 2
    omega

/-- A value computed from what is read, that determines it. -/
theorem map {s : Section α} {encode : α → List UInt8} {Valid : α → Prop} (hs : Codec s encode Valid) (g : α → β)
    (part : β → α) (hpart : ∀ a, Valid a → part (g a) = a) :
    Codec (s >>= fun a => Pure.pure (g a)) (fun b => encode (part b)) (fun b => Valid (part b) ∧ g (part b) = b) where
  sound := by
    intro data position b last hrun
    obtain ⟨a, next, hfirst, hsecond⟩ := run_bind_eq_ok.mp hrun
    cases hsecond
    obtain ⟨hvalid, hdrop, hnext, hreads⟩ := hs.sound hfirst
    rw [hpart a hvalid]
    refine ⟨⟨hvalid, rfl⟩, hdrop, hnext, fun q => ?_⟩
    rw [mem_reads_bind_of_ok hfirst, hreads]
    exact or_iff_left List.not_mem_nil
  complete := by
    intro data position b rest hvalid hdrop
    rw [run_bind_eq_ok]
    refine ⟨_, _, hs.complete hvalid.1 hdrop, ?_⟩
    rw [hvalid.2]
    rfl

theorem congr {s : Section α} {encode encode' : α → List UInt8} {Valid Valid' : α → Prop}
    (hs : Codec s encode Valid) (hvalid : ∀ a, Valid a ↔ Valid' a) (hencode : ∀ a, Valid' a → encode a = encode' a) :
    Codec s encode' Valid' where
  sound := by
    intro data position a next hrun
    obtain ⟨ha, hrest⟩ := hs.sound hrun
    rw [hencode a ((hvalid a).mp ha)] at hrest
    exact ⟨(hvalid a).mp ha, hrest⟩
  complete := by
    intro data position a rest ha hdrop
    rw [← hencode a ha] at hdrop ⊢
    exact hs.complete ((hvalid a).mpr ha) hdrop

theorem readByte : Codec readByte (fun b => [b]) (fun _ => True) where
  sound := by
    intro data position b next hrun
    unfold Section.readByte at hrun ⊢
    rw [Reader.run] at hrun
    cases hbyte : data[position]? with
    | none =>
      rw [hbyte] at hrun
      cases hrun
    | some c =>
      rw [hbyte] at hrun
      cases hrun
      obtain ⟨hlt, hc⟩ := List.getElem?_eq_some_iff.mp hbyte
      refine ⟨trivial, ?_, rfl, fun q => ?_⟩
      · rw [List.drop_eq_getElem_cons hlt, hc]
        rfl
      · rw [Reader.reads, hbyte]
        change q ∈ [position] ↔ _
        rw [List.mem_singleton]
        omega
  complete := by
    intro data position b rest _ hdrop
    have hbyte : data[position]? = some b := by
      have hhead := congrArg List.head? hdrop
      rw [List.head?_drop] at hhead
      exact hhead
    unfold Section.readByte
    rw [Reader.run, hbyte]
    rfl

theorem readItems {read : Section α} {encode : α → List UInt8} {Valid : α → Prop} (hread : Codec read encode Valid)
    (count : Nat) : Codec (readItems read count) (fun items => items.flatMap encode)
      (fun items => items.length = count ∧ ∀ a ∈ items, Valid a) := by
  induction count with
  | zero =>
    refine (Codec.pure []).congr (fun items => ?_) fun items hitems => ?_
    · constructor
      · rintro rfl
        exact ⟨rfl, by simp⟩
      · rintro ⟨hlength, -⟩
        exact List.length_eq_zero_iff.mp hlength
    · rw [List.length_eq_zero_iff.mp hitems.1]
      rfl
  | succ count ih =>
    constructor
    · intro data position items last hrun
      obtain ⟨a, next, hfirst, hrest⟩ := run_bind_eq_ok.mp hrun
      obtain ⟨rest, middle, hsecond, hpair⟩ := run_bind_eq_ok.mp hrest
      cases hpair
      obtain ⟨hvalid, hdrop, hnext, hreads⟩ := hread.sound hfirst
      obtain ⟨⟨hlength, hall⟩, hdrop', hlast, hreads'⟩ := ih.sound hsecond
      refine ⟨⟨by rw [List.length_cons, hlength], List.forall_mem_cons.mpr ⟨hvalid, hall⟩⟩, ?_, ?_, ?_⟩
      · rw [hdrop, hdrop', List.flatMap_cons, List.append_assoc]
      · rw [hlast, hnext, List.flatMap_cons, List.length_append]
        omega
      · intro q
        change q ∈ ((read >>= fun a => Section.readItems read count >>= fun rest => Pure.pure (a :: rest))
          position).reads data ↔ _
        rw [mem_reads_bind_of_ok hfirst, mem_reads_bind_of_ok hsecond, hreads, hreads']
        refine (or_congr_right (or_iff_left List.not_mem_nil)).trans ?_
        omega
    · rintro data position (_ | ⟨a, items⟩) rest ⟨hlength, hall⟩ hdrop
      · simp at hlength
      · obtain ⟨ha, hothers⟩ := List.forall_mem_cons.mp hall
        rw [List.flatMap_cons, List.append_assoc] at hdrop
        have hfirst := hread.complete ha hdrop
        have hsecond := ih.complete ⟨by simpa using hlength, hothers⟩ (drop_of_append hdrop)
        refine run_bind_eq_ok.mpr ⟨_, _, hfirst, run_bind_eq_ok.mpr ⟨_, _, hsecond, ?_⟩⟩
        rw [List.flatMap_cons, List.length_append, ← Nat.add_assoc]
        rfl

theorem readShort : Codec readShort shortBytes (fun _ => True) := by
  have hhigh : ∀ low : UInt8, Codec
      (Section.readByte >>= fun high => Pure.pure (high.toBitVec ++ low.toBitVec))
      (fun s => [⟨s.extractLsb' 8 8⟩]) (fun s => True ∧ s.extractLsb' 8 8 ++ low.toBitVec = s) := by
    intro low
    refine Codec.readByte.map (fun high => high.toBitVec ++ low.toBitVec) (fun s => ⟨s.extractLsb' 8 8⟩) ?_
    intro high _
    rw [BitVec.extractLsb'_append_eq_left]
  have hboth := Codec.readByte.bind (fun s => ⟨s.extractLsb' 0 8⟩) hhigh (by
    rintro low s ⟨-, hs⟩
    rw [← hs, BitVec.extractLsb'_append_eq_right])
  refine hboth.congr (fun s => ?_) fun s _ => rfl
  simp only [true_and, iff_true]
  exact BitVec.extractLsb'_append_extractLsb'

theorem readUnsignedShort : Codec readUnsignedShort (fun i => shortBytes (i.setWidth 16))
    (fun i => i = (i.setWidth 16).setWidth 32) := by
  have hshort := Codec.readShort.map (fun s => s.setWidth 32) (fun i : BitVec 32 => i.setWidth 16)
    (fun s _ => by simp)
  exact hshort.congr (fun i => by simp [eq_comm]) fun i _ => rfl

theorem readInt : Codec readInt intBytes (fun _ => True) := by
  have hhigh : ∀ low : BitVec 16, Codec
      (Section.readShort >>= fun high => Pure.pure (high ++ low))
      (fun i => shortBytes (i.extractLsb' 16 16)) (fun i => True ∧ i.extractLsb' 16 16 ++ low = i) := by
    intro low
    refine Codec.readShort.map (fun high => high ++ low) (fun i => i.extractLsb' 16 16) ?_
    intro high _
    rw [BitVec.extractLsb'_append_eq_left]
  have hboth := Codec.readShort.bind (fun i => i.extractLsb' 0 16) hhigh (by
    rintro low i ⟨-, hi⟩
    rw [← hi, BitVec.extractLsb'_append_eq_right])
  refine hboth.congr (fun i => ?_) fun i _ => rfl
  simp only [true_and, iff_true]
  exact BitVec.extractLsb'_append_extractLsb'

theorem readShortArray (length : BitVec 32) : Codec (readShortArray length) (fun shorts => shorts.flatMap shortBytes)
    (fun shorts => length.msb = false ∧ shorts.length = length.toNat) := by
  unfold Section.readShortArray Section.readArray
  cases hmsb : length.msb with
  | true =>
    simp only [↓reduceIte]
    constructor
    · intro data position shorts next hrun
      cases hrun
    · intro data position shorts rest hvalid
      cases hvalid.1
  | false =>
    simp only [Bool.false_eq_true, ↓reduceIte]
    exact (Codec.readShort.readItems length.toNat).congr (by simp) fun _ _ => rfl

end Codec

end inspector.dex
