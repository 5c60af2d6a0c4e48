import VisualProgram.Proofs.RoundTrip

namespace VisualProgram

open Json

structure Admissible (bs : List Block) : Prop where
  named : ∀ b ∈ bs, b.id ≠ .null
  distinct : (bs.map Block.id).Nodup

inductive Refused (before : List Block) (b : Block) : IdError → Prop where
  | reserved (hnull : b.id = .null) : Refused before b .reserved
  | taken (hnamed : b.id ≠ .null) (hid : b.id ∈ before.map Block.id) :
      Refused before b (.duplicate b.id)

def Block.refusal (b : Block) : String :=
  "invalid block document: " ++
    if b.id = .null then "block id " ++ b.id.text ++ " is reserved and cannot name a block"
    else "duplicate block id " ++ b.id.text

theorem Refused.message {before : List Block} {b : Block} {e : IdError} (h : Refused before b e) :
    (DocumentError.ids e).message? = some b.refusal := by
  unfold DocumentError.message? IdError.message Block.refusal
  cases h with
  | reserved hnull => simp only [hnull, if_true]
  | taken hnamed hid => simp only [hnamed, if_false]

namespace BlockGraph

variable {g g' : BlockGraph} {b : Block} {bs : List Block} {e : IdError} {text : String}

theorem admissible (g : BlockGraph) : Admissible g.blocks :=
  ⟨g.named, g.distinct⟩

theorem insert_eq_error_iff : g.insert b = .error e ↔ Refused g.blocks b e := by
  constructor
  · intro h
    unfold insert at h
    split at h
    · next hnull =>
      cases h
      exact .reserved hnull
    · next hnamed =>
      split at h
      · next hid =>
        cases h
        exact .taken hnamed hid
      · cases h
  · intro h
    cases h with
    | reserved hnull => exact dif_pos hnull
    | taken hnamed hid => rw [insert, dif_neg hnamed, dif_pos hid]

theorem exists_insert_eq_error (h : bs.foldlM insert g = .error e) :
    ∃ before b after g', bs = before ++ b :: after ∧ before.foldlM insert g = .ok g' ∧
      g'.insert b = .error e := by
  induction bs generalizing g with
  | nil => cases h
  | cons b bs ih =>
    rw [List.foldlM_cons] at h
    cases hinsert : g.insert b with
    | error e' =>
      rw [hinsert] at h
      cases h
      exact ⟨[], b, bs, g, rfl, rfl, hinsert⟩
    | ok g₁ =>
      rw [hinsert] at h
      obtain ⟨before, b', after, g', rfl, hbefore, hb'⟩ := ih h
      refine ⟨b :: before, b', after, g', rfl, ?_, hb'⟩
      rw [List.foldlM_cons, hinsert]
      exact hbefore

theorem ofBlocks_eq_ok_iff : ofBlocks bs = .ok g ↔ g.blocks = bs :=
  foldlM_insert_eq_ok_iff

theorem exists_ofBlocks_iff : (∃ g, ofBlocks bs = .ok g) ↔ Admissible bs := by
  constructor
  · rintro ⟨g, hg⟩
    exact ofBlocks_eq_ok_iff.1 hg ▸ g.admissible
  · intro h
    exact ⟨⟨bs, h.named, h.distinct⟩, ofBlocks_eq_ok_iff.2 rfl⟩

theorem ofBlocks_eq_error_iff :
    ofBlocks bs = .error e ↔
      ∃ before b after, bs = before ++ b :: after ∧ Admissible before ∧ Refused before b e := by
  constructor
  · intro h
    obtain ⟨before, b, after, g, hbs, hbefore, hb⟩ := exists_insert_eq_error h
    have hblocks : g.blocks = before := ofBlocks_eq_ok_iff.1 hbefore
    refine ⟨before, b, after, hbs, ?_, ?_⟩
    · exact hblocks ▸ g.admissible
    · exact hblocks ▸ insert_eq_error_iff.1 hb
  · rintro ⟨before, b, after, rfl, hbefore, hb⟩
    obtain ⟨g, hg⟩ := exists_ofBlocks_iff.2 hbefore
    have hblocks : g.blocks = before := ofBlocks_eq_ok_iff.1 hg
    have hinsert : g.insert b = .error e := insert_eq_error_iff.2 (hblocks.symm ▸ hb)
    rw [ofBlocks] at hg ⊢
    rw [List.foldlM_append, hg]
    -- behind the refused block nothing is looked at
    change (g.insert b >>= fun g => after.foldlM insert g) = _
    rw [hinsert]
    rfl

theorem ofDocument_of_read (h : (Reader.record blocksRecord).read text = .ok bs) :
    ofDocument text = (ofBlocks bs).mapError .ids := by
  unfold Reader.read at h
  unfold ofDocument
  cases hrun : (Reader.record blocksRecord).run text.toList with
  | error e => simp [hrun] at h
  | ok p =>
    simp only [hrun] at h
    split at h
    · next hrest =>
      cases h
      dsimp only
      cases ofBlocks p.1 with
      | error e => rfl
      | ok g => simp [hrest, Except.mapError]
    · cases h

theorem ofDocument_eq_ok_iff (h : (Reader.record blocksRecord).read text = .ok bs) :
    ofDocument text = .ok g ↔ g.blocks = bs := by
  rw [ofDocument_of_read h, ← ofBlocks_eq_ok_iff]
  cases ofBlocks bs with
  | error i => exact ⟨nofun, nofun⟩
  | ok g => exact ⟨fun | rfl => rfl, fun | rfl => rfl⟩

theorem ofDocument_eq_error_iff {e : DocumentError}
    (h : (Reader.record blocksRecord).read text = .ok bs) :
    ofDocument text = .error e ↔ ∃ i, ofBlocks bs = .error i ∧ e = .ids i := by
  rw [ofDocument_of_read h]
  cases ofBlocks bs with
  | error i =>
    constructor
    · rintro ⟨⟩
      exact ⟨i, rfl, rfl⟩
    · rintro ⟨_, ⟨⟩, rfl⟩
      rfl
  | ok g =>
    constructor
    · rintro ⟨⟩
    · rintro ⟨_, ⟨⟩, -⟩

theorem admission (bs : List Block) :
    ((∃ g, ofBlocks bs = .ok g) ↔ Admissible bs) ∧
      (∀ g, ofBlocks bs = .ok g → g.blocks = bs) ∧
      (∀ e, ofBlocks bs = .error e ↔
        ∃ before b after, bs = before ++ b :: after ∧ Admissible before ∧ Refused before b e) ∧
      Arena.ofBlocks bs = arena <$> ofBlocks bs ∧
      ∀ text, (Reader.record blocksRecord).read text = .ok bs →
        ((∃ g, ofDocument text = .ok g) ↔ Admissible bs) ∧
          (∀ g, ofDocument text = .ok g → g.blocks = bs) ∧
          ∀ e, ofDocument text = .error e ↔
            ∃ before b after i, bs = before ++ b :: after ∧ Admissible before ∧
              Refused before b i ∧ e = .ids i ∧ e.message? = some b.refusal := by
  refine ⟨exists_ofBlocks_iff, fun g => ofBlocks_eq_ok_iff.1, fun e => ofBlocks_eq_error_iff,
    ofBlocks_arena bs, fun text hread => ⟨?_, fun g => (ofDocument_eq_ok_iff hread).1, ?_⟩⟩
  · simp only [ofDocument_eq_ok_iff hread, ← exists_ofBlocks_iff, ofBlocks_eq_ok_iff]
  · intro e
    rw [ofDocument_eq_error_iff hread]
    constructor
    · rintro ⟨i, hi, rfl⟩
      obtain ⟨before, b, after, hbs, hbefore, hb⟩ := ofBlocks_eq_error_iff.1 hi
      exact ⟨before, b, after, i, hbs, hbefore, hb, rfl, hb.message⟩
    · rintro ⟨before, b, after, i, hbs, hbefore, hb, he, -⟩
      exact ⟨i, ofBlocks_eq_error_iff.2 ⟨before, b, after, hbs, hbefore, hb⟩, he⟩

def repeatedId : List Block :=
  [{ Block.ofGenus "click" with id := .ofNat 2 }, { Block.ofGenus "wait" with id := .ofNat 5 },
    { Block.ofGenus "break" with id := .ofNat 2 }, .ofGenus "continue"]

theorem read_blocks (bs : List Block) :
    (Reader.record blocksRecord).read
      (Value.object [("blocks", .array (bs.map Block.toJson))]).pretty = .ok bs := by
  have hreads : ReadsValue (Reader.record blocksRecord)
      (.object [("blocks", .array (bs.map Block.toJson))]) bs :=
    .record (readsMembers bs) rfl
  have hrun := hreads 0 spaces_nil stops_nil
  rw [List.nil_append, List.append_nil] at hrun
  simp [Reader.read, Value.pretty, hrun, skipSpace]

theorem admission_repeatedId :
    ∃ text, (Reader.record blocksRecord).read text = .ok repeatedId ∧
      ofBlocks repeatedId = .error (.duplicate (.ofNat 2)) ∧
      ofDocument text = .error (.ids (.duplicate (.ofNat 2))) ∧
      (DocumentError.ids (.duplicate (.ofNat 2))).message? =
        some "invalid block document: duplicate block id #2" := by
  have hread := read_blocks repeatedId
  have hbefore : Admissible (repeatedId.take 2) := ⟨by decide, by decide⟩
  have hrefused : Refused (repeatedId.take 2) { Block.ofGenus "break" with id := .ofNat 2 }
      (.duplicate (.ofNat 2)) :=
    .taken (by decide) (by decide)
  obtain ⟨-, -, herror, -, hdocument⟩ := admission repeatedId
  obtain ⟨-, -, hdocument⟩ := hdocument _ hread
  refine ⟨_, hread, ?_, ?_, ?_⟩
  · exact (herror _).2 ⟨_, _, _, rfl, hbefore, hrefused⟩
  · exact (hdocument _).2 ⟨_, _, _, _, rfl, hbefore, hrefused, rfl, hrefused.message⟩
  · rw [hrefused.message]
    decide

end BlockGraph

end VisualProgram
