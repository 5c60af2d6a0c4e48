import VisualProgram.Sorted

namespace VisualProgram

structure Table where
  entries : List (String × String)
  sorted : entries.Pairwise fun a b => a.1 < b.1
  deriving DecidableEq

namespace Table

theorem ext {s t : Table} (h : s.entries = t.entries) : s = t := by
  cases s
  cases t
  simp_all

def empty : Table :=
  ⟨[], .nil⟩

def isEmpty (t : Table) : Bool :=
  t.entries.isEmpty

def get? (t : Table) (key : String) : Option String :=
  t.entries.lookup key

def setEntry (key value : String) : List (String × String) → List (String × String)
  | [] => [(key, value)]
  | e :: es =>
    if key < e.1 then (key, value) :: e :: es
    else if e.1 < key then e :: setEntry key value es
    else (key, value) :: es

theorem mem_keys_setEntry {key value x : String} {es : List (String × String)}
    (h : x ∈ (setEntry key value es).map Prod.fst) : x = key ∨ x ∈ es.map Prod.fst := by
  induction es with
  | nil => simpa [setEntry] using h
  | cons e es ih =>
    simp only [setEntry] at h
    split at h
    · simpa using h
    · split at h
      · simp only [List.map_cons, List.mem_cons] at h ⊢
        rcases h with h | h
        · exact .inr (.inl h)
        · exact (ih h).imp_right .inr
      · simp only [List.map_cons, List.mem_cons] at h ⊢
        exact h.imp_right .inr

theorem sorted_setEntry (key value : String) {es : List (String × String)}
    (h : es.Pairwise fun a b => a.1 < b.1) :
    (setEntry key value es).Pairwise fun a b => a.1 < b.1 := by
  induction es with
  | nil => simp [setEntry]
  | cons e es ih =>
    obtain ⟨he, hes⟩ := List.pairwise_cons.1 h
    simp only [setEntry]
    split
    · next hk =>
      refine List.pairwise_cons.2 ⟨fun x hx => ?_, h⟩
      rcases List.mem_cons.1 hx with rfl | hx
      · exact hk
      · exact Sorted.lt_trans hk (he x hx)
    · next hk =>
      split
      · next hk' =>
        refine List.pairwise_cons.2 ⟨fun x hx => ?_, ih hes⟩
        rcases mem_keys_setEntry (List.mem_map_of_mem hx) with h | h
        · exact h ▸ hk'
        · obtain ⟨y, hy, hxy⟩ := List.mem_map.1 h
          exact hxy ▸ he y hy
      · next hk' =>
        have hk : key = e.1 := Sorted.eq_of_not_lt hk hk'
        exact List.pairwise_cons.2 ⟨fun x hx => hk ▸ he x hx, hes⟩

def insert (t : Table) (key value : String) : Table :=
  ⟨setEntry key value t.entries, sorted_setEntry key value t.sorted⟩

theorem lookup_setEntry (key value x : String) (es : List (String × String)) :
    (setEntry key value es).lookup x = if x = key then some value else es.lookup x := by
  induction es with
  | nil =>
    by_cases h : x = key
    · simp [setEntry, h]
    · have hx : (x == key) = false := by simpa using h
      simp [setEntry, List.lookup_cons, h, hx]
  | cons e es ih =>
    obtain ⟨k, v⟩ := e
    simp only [setEntry]
    split
    · by_cases h : x = key
      · simp [h]
      · have hx : (x == key) = false := by simpa using h
        simp [List.lookup_cons, h, hx]
    · split
      · next hk =>
        simp only [List.lookup_cons, ih]
        by_cases h : x = key
        · have hx : (x == k) = false := by
            simpa using fun hxk : x = k => String.lt_irrefl _ (h ▸ hxk ▸ hk)
          simp [h, h ▸ hx]
        · simp [h]
      · next h1 h2 =>
        have hk : key = k := Sorted.eq_of_not_lt h1 h2
        by_cases h : x = key
        · simp [h]
        · have hx : (x == key) = false := by simpa using h
          simp [List.lookup_cons, h, hx, ← hk]

theorem get?_insert (t : Table) (key value x : String) :
    (t.insert key value).get? x = if x = key then some value else t.get? x :=
  lookup_setEntry key value x t.entries

theorem setEntry_of_lt {key value : String} {es : List (String × String)}
    (h : ∀ e ∈ es, e.1 < key) : setEntry key value es = es ++ [(key, value)] := by
  induction es with
  | nil => rfl
  | cons e es ih =>
    have he : e.1 < key := h e (by simp)
    have hkey : ¬key < e.1 := String.lt_asymm he
    rw [setEntry, if_neg hkey, if_pos he, ih fun x hx => h x (List.mem_cons_of_mem e hx)]
    rfl

theorem entries_foldl_insert (t : Table) (es : List (String × String))
    (h : (t.entries ++ es).Pairwise fun a b => a.1 < b.1) :
    (es.foldl (fun u e => u.insert e.1 e.2) t).entries = t.entries ++ es := by
  induction es generalizing t with
  | nil => simp
  | cons e es ih =>
    have hlast : (t.insert e.1 e.2).entries = t.entries ++ [e] :=
      setEntry_of_lt fun x hx => (List.pairwise_append.1 h).2.2 x hx e (by simp)
    rw [List.append_cons, ← hlast] at h
    rw [List.foldl_cons, ih _ h, hlast, List.append_assoc, List.singleton_append]

theorem foldl_insert_entries (t : Table) :
    t.entries.foldl (fun u e => u.insert e.1 e.2) empty = t :=
  ext (entries_foldl_insert empty t.entries t.sorted)

end Table

end VisualProgram
