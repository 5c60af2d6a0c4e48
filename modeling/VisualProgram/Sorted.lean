namespace VisualProgram.Sorted

variable {α : Type} [LT α] [DecidableLT α]

def insert (a : α) : List α → List α
  | [] => [a]
  | b :: bs => if a < b then a :: b :: bs else if b < a then b :: insert a bs else a :: bs

def ofList (xs : List α) : List α :=
  xs.foldr insert []

variable [LE α] [Std.IsLinearOrder α] [Std.LawfulOrderLT α]

omit [DecidableLT α] in
theorem lt_trans {a b c : α} (hab : a < b) (hbc : b < c) : a < c :=
  Trans.trans hab hbc

omit [DecidableLT α] in
theorem eq_of_not_lt {a b : α} (hab : ¬a < b) (hba : ¬b < a) : a = b :=
  Std.Trichotomous.trichotomous (r := (· < ·)) a b hab hba

theorem mem_insert {a x : α} {xs : List α} : x ∈ insert a xs ↔ x = a ∨ x ∈ xs := by
  induction xs with
  | nil => simp [insert]
  | cons b bs ih =>
    simp only [insert]
    split
    · simp
    · split
      · simp only [List.mem_cons, ih]
        exact ⟨fun h => by rcases h with h | h | h <;> simp [h], fun h => by
          rcases h with h | h | h <;> simp [h]⟩
      · next hab hba =>
        obtain rfl := eq_of_not_lt hab hba
        simp

theorem pairwise_insert (a : α) {xs : List α} (h : xs.Pairwise (· < ·)) :
    (insert a xs).Pairwise (· < ·) := by
  induction xs with
  | nil => simp [insert]
  | cons b bs ih =>
    obtain ⟨hb, hbs⟩ := List.pairwise_cons.1 h
    simp only [insert]
    split
    · next hab =>
      refine List.pairwise_cons.2 ⟨fun x hx => ?_, h⟩
      rcases List.mem_cons.1 hx with rfl | hx
      · exact hab
      · exact lt_trans hab (hb x hx)
    · next hab =>
      split
      · next hba =>
        refine List.pairwise_cons.2 ⟨fun x hx => ?_, ih hbs⟩
        rcases mem_insert.1 hx with rfl | hx
        · exact hba
        · exact hb x hx
      · next hba =>
        obtain rfl := eq_of_not_lt hab hba
        exact h

theorem mem_ofList {x : α} {xs : List α} : x ∈ ofList xs ↔ x ∈ xs := by
  induction xs with
  | nil => simp [ofList]
  | cons a as ih =>
    simp only [ofList, List.foldr_cons, mem_insert, List.mem_cons]
    exact or_congr Iff.rfl ih

theorem pairwise_ofList (xs : List α) : (ofList xs).Pairwise (· < ·) := by
  induction xs with
  | nil => exact .nil
  | cons a as ih => exact pairwise_insert a ih

omit [DecidableLT α] in
theorem eq_of_pairwise {xs ys : List α} (hx : xs.Pairwise (· < ·)) (hy : ys.Pairwise (· < ·))
    (h : ∀ a, a ∈ xs ↔ a ∈ ys) : xs = ys := by
  have nodup {zs : List α} (hz : zs.Pairwise (· < ·)) : zs.Nodup := by
    apply hz.imp
    rintro a b hab rfl
    exact Std.lt_irrefl hab
  apply List.Perm.eq_of_pairwise _ hx hy
  · exact (List.perm_ext_iff_of_nodup (nodup hx) (nodup hy)).2 h
  · intro a b _ _ hab hba
    exact absurd (lt_trans hab hba) Std.lt_irrefl

theorem ofList_congr {xs ys : List α} (h : ∀ a, a ∈ xs ↔ a ∈ ys) : ofList xs = ofList ys := by
  apply eq_of_pairwise (pairwise_ofList xs) (pairwise_ofList ys)
  intro a
  rw [mem_ofList, mem_ofList, h]

theorem foldl_insert (xs : List α) : xs.foldl (fun as a => insert a as) [] = ofList xs := by
  rw [List.foldl_eq_foldr_reverse]
  exact ofList_congr fun a => List.mem_reverse

end VisualProgram.Sorted
