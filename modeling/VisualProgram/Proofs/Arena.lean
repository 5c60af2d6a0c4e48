import Mathlib.Data.List.Nodup
import Mathlib.Logic.Function.Basic
import VisualProgram.Document.Reader
import VisualProgram.Graph.Builder
import VisualProgram.Graph.Lookup

namespace VisualProgram

structure Arena where
  blocks : List Block
  index : BlockId → Option Nat

namespace Arena

def empty : Arena :=
  ⟨[], fun _ => none⟩

def push (a : Arena) (b : Block) : Arena where
  blocks := a.blocks ++ [b]
  index := Function.update a.index b.id (some a.blocks.length)

def insert (a : Arena) (b : Block) : Except IdError Unit × Arena :=
  if b.id = .null then (.error .reserved, a)
  else if (a.index b.id).isSome then (.error (.duplicate b.id), a)
  else (.ok (), a.push b)

def insertAll : List Block → Arena → Except IdError Arena
  | [], a => .ok a
  | b :: bs, a =>
    match a.insert b with
    | (.ok _, a) => insertAll bs a
    | (.error e, _) => .error e

def ofBlocks (blocks : List Block) : Except IdError Arena :=
  insertAll blocks empty

def ofDocument (text : String) : Except DocumentError Arena :=
  match (Json.Reader.record blocksRecord).run text.toList with
  | .error e => .error (.json e)
  | .ok (blocks, rest) =>
    match ofBlocks blocks with
    | .error e => .error (.ids e)
    | .ok a => if (Json.skipSpace rest).isEmpty then .ok a else .error (.json .malformed)

def get? (a : Arena) (id : BlockId) : Option Block :=
  (a.index id).bind fun position => a.blocks[position]?

def block? (a : Arena) (id : BlockId) : Option Block :=
  if id = .null then none else a.get? id

def isValid (a : Arena) (id : BlockId) : Bool :=
  id ≠ .null && (a.index id).isSome

def modify (a : Arena) (id : BlockId) (f : Block → Block) : Arena :=
  match a.index id with
  | none => a
  | some position => { a with blocks := a.blocks.modify position f }

structure InStep (a : Arena) : Prop where
  index : ∀ id position,
    a.index id = some position ↔ ∃ b, a.blocks[position]? = some b ∧ b.id = id
  named : ∀ b ∈ a.blocks, b.id ≠ .null
  distinct : (a.blocks.map Block.id).Nodup

variable {a : Arena} {b : Block} {id : BlockId}

theorem InStep.get?_iff (h : a.InStep) : a.get? id = some b ↔ b ∈ a.blocks ∧ b.id = id := by
  rw [get?, Option.bind_eq_some_iff]
  constructor
  · rintro ⟨position, hindex, hb⟩
    obtain ⟨d, hd, hid⟩ := (h.index id position).1 hindex
    cases hb.symm.trans hd
    exact ⟨List.mem_of_getElem? hb, hid⟩
  · rintro ⟨hb, hid⟩
    obtain ⟨position, hposition⟩ := List.mem_iff_getElem?.1 hb
    exact ⟨position, (h.index id position).2 ⟨b, hposition, hid⟩, hposition⟩

theorem InStep.isValid_eq (h : a.InStep) (id : BlockId) :
    a.isValid id = (id ≠ .null && (a.block? id).isSome) := by
  by_cases hnull : id = .null
  · simp [isValid, hnull]
  · rw [isValid, block?, if_neg hnull, get?]
    cases hindex : a.index id with
    | none => rfl
    | some position =>
      obtain ⟨b, hb, -⟩ := (h.index id position).1 hindex
      rw [Option.bind_some, hb]
      rfl

theorem insert_error {e : IdError} {a' : Arena} (h : a.insert b = (.error e, a')) : a' = a := by
  unfold insert at h
  split at h
  · exact (Prod.mk.inj h).2.symm
  · split at h
    · exact (Prod.mk.inj h).2.symm
    · cases (Prod.mk.inj h).1

end Arena

namespace BlockGraph

def arena (g : BlockGraph) : Arena where
  blocks := g.blocks
  index id := g.blocks.findIdx? fun b => b.id = id

variable {g g' : BlockGraph} {b : Block}

theorem insert_eq_ok_iff : g.insert b = .ok g' ↔ g'.blocks = g.blocks ++ [b] := by
  unfold insert
  constructor
  · intro h
    split at h
    · cases h
    · split at h
      · cases h
      · cases h
        rfl
  · intro h
    have hnamed : b.id ≠ .null := g'.named b (by simp [h])
    have hid : b.id ∉ g.blocks.map Block.id := by
      have hdistinct := g'.distinct
      rw [h, List.map_append, List.nodup_append] at hdistinct
      exact fun hmem => hdistinct.2.2 _ hmem b.id (by simp) rfl
    rw [dif_neg hnamed, dif_neg hid]
    exact congrArg _ (ext h.symm)

theorem foldlM_insert_eq_ok_iff {bs : List Block} :
    bs.foldlM insert g = .ok g' ↔ g'.blocks = g.blocks ++ bs := by
  induction bs generalizing g with
  | nil =>
    rw [List.append_nil]
    constructor
    · rintro ⟨⟩
      rfl
    · exact fun h => congrArg _ (ext h.symm)
  | cons b bs ih =>
    rw [List.foldlM_cons]
    cases hinsert : g.insert b with
    | ok g₁ =>
      rw [List.append_cons, ← insert_eq_ok_iff.1 hinsert]
      exact ih
    | error e =>
      constructor
      · rintro ⟨⟩
      · intro h
        rw [List.append_cons] at h
        have hsub : (g.blocks ++ [b]).Sublist g'.blocks := h ▸ List.sublist_append_left ..
        let g₁ : BlockGraph :=
          { blocks := g.blocks ++ [b]
            named := fun c hc => g'.named c (hsub.subset hc)
            distinct := g'.distinct.sublist (hsub.map _) }
        have hok : g.insert b = .ok g₁ := insert_eq_ok_iff.2 rfl
        rw [hinsert] at hok
        cases hok

theorem arena_empty : empty.arena = .empty :=
  rfl

theorem index_arena_iff {id : BlockId} {position : Nat} :
    g.arena.index id = some position ↔ ∃ b, g.blocks[position]? = some b ∧ b.id = id := by
  rw [arena, List.findIdx?_eq_some_iff_getElem]
  constructor
  · rintro ⟨hlt, hid, -⟩
    exact ⟨_, List.getElem?_eq_getElem hlt, of_decide_eq_true hid⟩
  · rintro ⟨b, hb, rfl⟩
    obtain ⟨hlt, rfl⟩ := List.getElem?_eq_some_iff.1 hb
    refine ⟨hlt, decide_eq_true rfl, fun j hj hid => ?_⟩
    have hj' : j < (g.blocks.map Block.id).length := by simp; omega
    have hlt' : position < (g.blocks.map Block.id).length := by simpa using hlt
    have heq : (g.blocks.map Block.id)[j] = (g.blocks.map Block.id)[position] := by
      simpa using of_decide_eq_true hid
    have := g.distinct.getElem_inj_iff.1 heq
    omega

theorem inStep_arena (g : BlockGraph) : g.arena.InStep where
  index _ _ := index_arena_iff
  named := g.named
  distinct := g.distinct

theorem isSome_index_arena {id : BlockId} :
    (g.arena.index id).isSome = true ↔ id ∈ g.blocks.map Block.id := by
  simp [arena]

theorem get?_arena (g : BlockGraph) (id : BlockId) : g.arena.get? id = g.get? id :=
  List.find?_eq_bind_findIdx?_getElem?.symm

theorem block?_arena (g : BlockGraph) (id : BlockId) : g.arena.block? id = g.get? id := by
  by_cases hnull : id = .null
  · rw [Arena.block?, if_pos hnull, hnull, get?_null]
  · rw [Arena.block?, if_neg hnull, get?_arena]

theorem isValid_arena (g : BlockGraph) (id : BlockId) :
    g.arena.isValid id = (Lookup.ofGraph g).isValid id := by
  rw [g.inStep_arena.isValid_eq, block?_arena, Lookup.isSome_get?]
  rfl

theorem push_arena (hid : b.id ∉ g.blocks.map Block.id) (h : g'.blocks = g.blocks ++ [b]) :
    g.arena.push b = g'.arena := by
  rw [Arena.push, arena, arena, Arena.mk.injEq]
  refine ⟨h.symm, funext fun id => ?_⟩
  rw [h, List.findIdx?_append]
  by_cases heq : id = b.id
  · have hnone : g.blocks.findIdx? (fun d => d.id = b.id) = none := by
      simpa [List.findIdx?_eq_none_iff] using hid
    rw [heq, Function.update_self, hnone]
    simp
  · rw [Function.update_of_ne heq]
    simp [Ne.symm heq]

theorem insert_arena (g : BlockGraph) (b : Block) :
    g.arena.insert b =
      match g.insert b with
      | .ok g' => (.ok (), g'.arena)
      | .error e => (.error e, g.arena) := by
  unfold Arena.insert insert
  by_cases hnull : b.id = .null
  · rw [if_pos hnull, dif_pos hnull]
  · rw [if_neg hnull, dif_neg hnull]
    by_cases hid : b.id ∈ g.blocks.map Block.id
    · rw [if_pos (isSome_index_arena.2 hid), dif_pos hid]
    · rw [if_neg (mt isSome_index_arena.1 hid), dif_neg hid]
      exact congrArg _ (push_arena hid rfl)

theorem insertAll_arena (bs : List Block) (g : BlockGraph) :
    Arena.insertAll bs g.arena = arena <$> bs.foldlM insert g := by
  induction bs generalizing g with
  | nil => rfl
  | cons b bs ih =>
    rw [Arena.insertAll, List.foldlM_cons, insert_arena]
    cases g.insert b with
    | error e => rfl
    | ok g' => exact ih g'

theorem ofBlocks_arena (bs : List Block) : Arena.ofBlocks bs = arena <$> ofBlocks bs := by
  rw [Arena.ofBlocks, ← arena_empty, insertAll_arena]
  rfl

theorem ofDocument_arena (text : String) :
    Arena.ofDocument text = arena <$> ofDocument text := by
  unfold Arena.ofDocument ofDocument
  cases (Json.Reader.record blocksRecord).run text.toList with
  | error e => rfl
  | ok p =>
    dsimp only
    rw [ofBlocks_arena]
    cases ofBlocks p.1 with
    | error e => rfl
    | ok g =>
      dsimp only [Functor.map, Except.map]
      split <;> rfl

theorem modify_arena (g : BlockGraph) (id : BlockId) (f : Block → Block)
    (hf : ∀ b, (f b).id = b.id) : (g.modify id f hf).arena = g.arena.modify id f := by
  have hindex : (g.modify id f hf).arena.index = g.arena.index := by
    funext x
    have hids (b : Block) : (if b.id = id then f b else b).id = b.id := by
      by_cases hid : b.id = id <;> simp [hid, hf]
    simp only [arena, modify, List.findIdx?_map, Function.comp_def, hids]
  unfold Arena.modify
  cases hposition : g.arena.index id with
  | none =>
    have hid : id ∉ g.blocks.map Block.id := by
      rw [← isSome_index_arena, hposition]
      decide
    have hsame : ∀ b ∈ g.blocks, (if b.id = id then f b else b) = b := by
      intro b hb
      apply if_neg
      rintro rfl
      exact hid (List.mem_map_of_mem hb)
    have hblocks : (g.modify id f hf).blocks = g.blocks :=
      (List.map_congr_left hsame).trans (List.map_id _)
    exact congrArg₂ Arena.mk hblocks hindex
  | some position =>
    have hblocks : (g.modify id f hf).blocks = g.blocks.modify position f := by
      apply List.ext_getElem?
      intro i
      rw [modify, List.getElem?_map, List.getElem?_modify]
      cases hb : g.blocks[i]? with
      | none => rfl
      | some b =>
        have hiff : b.id = id ↔ position = i := by
          constructor
          · intro hid
            have := index_arena_iff.2 ⟨b, hb, hid⟩
            exact Option.some.inj (hposition.symm.trans this)
          · rintro rfl
            obtain ⟨d, hd, hid⟩ := index_arena_iff.1 hposition
            cases hb.symm.trans hd
            exact hid
        simp [hiff]
    exact congrArg₂ Arena.mk hblocks hindex

end BlockGraph

end VisualProgram
