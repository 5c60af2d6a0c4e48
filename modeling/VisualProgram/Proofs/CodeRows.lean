import VisualProgram.Proofs.Indentation
import VisualProgram.Proofs.Templates

namespace VisualProgram

namespace Text

def opening? (row : List Char) : Option Char :=
  row.find? fun x => !isBlank x

def IsCode (row : List Char) : Prop :=
  ∃ x, opening? row = some x ∧ x ≠ '#'

def HasCode (text : String) : Prop :=
  ∃ row ∈ rows text, IsCode row

theorem isCode_iff {row : List Char} :
    IsCode row ↔ opening? row ≠ none ∧ opening? row ≠ some '#' := by
  unfold IsCode
  cases opening? row <;> simp

instance (row : List Char) : Decidable (IsCode row) :=
  decidable_of_iff _ isCode_iff.symm

instance (text : String) : Decidable (HasCode text) :=
  inferInstanceAs (Decidable (∃ row ∈ rows text, IsCode row))

theorem opening?_append (front back : List Char) :
    opening? (front ++ back) = (opening? front).or (opening? back) :=
  List.find?_append

theorem opening?_eq_none_iff {row : List Char} :
    opening? row = none ↔ ∀ x ∈ row, isBlank x = true := by
  simp [opening?]

theorem IsCode.append {front : List Char} (h : IsCode front) (back : List Char) :
    IsCode (front ++ back) := by
  obtain ⟨x, hx, hne⟩ := h
  exact ⟨x, by rw [opening?_append, hx, Option.some_or], hne⟩

theorem isCode_append_of_blank {front : List Char} (h : ∀ x ∈ front, isBlank x = true)
    (back : List Char) : IsCode (front ++ back) ↔ IsCode back := by
  unfold IsCode
  rw [opening?_append, opening?_eq_none_iff.2 h, Option.none_or]

theorem not_isCode_nil : ¬IsCode [] := by
  decide

theorem isCode_dropReturn {row : List Char} : IsCode (dropReturn row) ↔ IsCode row := by
  unfold dropReturn
  split
  · next hlast =>
    obtain ⟨row, rfl⟩ := List.getLast?_eq_some_iff.1 hlast
    have hreturn : opening? ['\r'] = none := rfl
    unfold IsCode
    rw [List.dropLast_concat, opening?_append, hreturn, Option.or_none]
  · exact Iff.rfl

theorem isCode_dropReturns {rs : List (List Char)} :
    (∃ row ∈ dropReturns rs, IsCode row) ↔ ∃ row ∈ rs, IsCode row := by
  fun_induction dropReturns rs with
  | case1 => exact Iff.rfl
  | case2 row => exact Iff.rfl
  | case3 row rs _ ih => simp only [List.exists_mem_cons_iff, ih, isCode_dropReturn]

theorem isCode_atDepth {unit : String} (hunit : ∀ x ∈ unit.toList, isBlank x = true)
    {row : List Char} : IsCode (atDepth unit 1 row) ↔ IsCode row := by
  unfold atDepth
  split
  · next hempty => rw [hempty]
  · exact isCode_append_of_blank (by simpa using hunit) row

theorem hasCode_append_feed {s t : String} : HasCode (s ++ "\n" ++ t) ↔ HasCode s ∨ HasCode t := by
  unfold HasCode
  rw [rows_append_feed]
  simp only [List.mem_append, or_and_right, exists_or]

theorem not_hasCode_empty : ¬HasCode "" := by
  decide

theorem hasCode_close {s : String} : HasCode (s ++ "\n") ↔ HasCode s := by
  have h := hasCode_append_feed (s := s) (t := "")
  rw [String.append_empty] at h
  exact h.trans (or_iff_left not_hasCode_empty)

theorem hasCode_intercalate {ts : List String} :
    HasCode (String.intercalate "\n" ts) ↔ ∃ t ∈ ts, HasCode t := by
  induction ts with
  | nil => simpa using not_hasCode_empty
  | cons t ts ih =>
    cases ts with
    | nil => simp
    | cons u us =>
      rw [String.intercalate_cons_cons, hasCode_append_feed, ih, List.exists_mem_cons_iff (a := t)]

theorem not_hasCode_of_blank {text : String} (h : blankText text = true) : ¬HasCode text := by
  rintro ⟨row, hrow, x, hx, -⟩
  have hmem : x ∈ text.toList := by
    rw [← intercalate_rows]
    exact (infix_intercalate hrow).subset (List.mem_of_find?_eq_some hx)
  have hblank := List.all_eq_true.1 h x hmem
  simpa [hblank] using List.find?_some hx

theorem hasCode_closeRows {rs : List (List Char)} (h : ∀ row ∈ rs, '\n' ∉ row) :
    HasCode (closeRows rs) ↔ ∃ row ∈ rs, IsCode row := by
  have hrows := rows_closeRows_append h ""
  rw [String.append_empty] at hrows
  have hlast : rows "" = [[]] := rfl
  unfold HasCode
  rw [hrows, hlast]
  simp [or_and_right, exists_or, not_isCode_nil]

theorem hasCode_dropFeeds {text : String} : HasCode (dropFeeds text) ↔ HasCode text := by
  constructor
  · rintro ⟨row, hrow, hcode⟩
    exact ⟨row, (prefix_rows_dropFeeds text).subset hrow, hcode⟩
  · rintro ⟨row, hrow, hcode⟩
    have hfull : EndsFull [row] := by
      refine ⟨[], row, rfl, ?_⟩
      rintro rfl
      exact not_isCode_nil hcode
    obtain ⟨before, after, hrows⟩ := List.append_of_mem hrow
    have hinfix : [row] <:+: rows text := ⟨before, after, by simp [hrows]⟩
    exact ⟨row, (infix_rows_dropFeeds hfull hinfix).subset List.mem_cons_self, hcode⟩

theorem isCode_keptRows {text : String} : (∃ row ∈ keptRows text, IsCode row) ↔ HasCode text := by
  unfold keptRows
  rw [← hasCode_dropFeeds]
  split
  · next hempty => simpa [hempty] using not_hasCode_empty
  · exact Iff.rfl

theorem feed_notMem_keptRows {text : String} {row : List Char} (h : row ∈ keptRows text) :
    '\n' ∉ row := by
  unfold keptRows at h
  split at h
  · cases h
  · exact feed_notMem_of_mem_splitOn h

theorem mem_dropReturns {rs : List (List Char)} {r : List Char} (h : r ∈ dropReturns rs) :
    ∃ row ∈ rs, r ⊆ row := by
  fun_induction dropReturns rs with
  | case1 => cases h
  | case2 row => exact ⟨r, h, List.Subset.refl r⟩
  | case3 row rs _ ih =>
    rcases List.mem_cons.1 h with rfl | h
    · refine ⟨row, List.mem_cons_self, ?_⟩
      unfold dropReturn
      split
      · exact List.dropLast_subset row
      · exact List.Subset.refl row
    · obtain ⟨row, hrow, hsub⟩ := ih h
      exact ⟨row, List.mem_cons_of_mem _ hrow, hsub⟩

theorem isBlank_of_unit {unit : String} (hunit : ∀ x ∈ unit.toList, x = ' ' ∨ x = '\t') :
    ∀ x ∈ unit.toList, isBlank x = true := by
  intro x hx
  rcases hunit x hx with rfl | rfl <;> decide

theorem hasCode_indent {unit : String} (hunit : ∀ x ∈ unit.toList, x = ' ' ∨ x = '\t')
    (text : String) : HasCode (indent unit text) ↔ HasCode text := by
  have hblank := isBlank_of_unit hunit
  have hfeed : Lacks '\n' unit := by
    intro hx
    rcases hunit _ hx with h | h <;> cases h
  have hrows : ∀ row ∈ (dropReturns (keptRows text)).map (atDepth unit 1), '\n' ∉ row := by
    intro row hrow
    obtain ⟨r, hr, rfl⟩ := List.mem_map.1 hrow
    obtain ⟨row, hrow, hsub⟩ := mem_dropReturns hr
    exact feed_notMem_atDepth hfeed fun hx => feed_notMem_keptRows hrow (hsub hx)
  rw [indent_eq_closeRows_keptRows, hasCode_closeRows hrows, ← isCode_keptRows]
  simp only [List.mem_map, exists_exists_and_eq_and, isCode_atDepth hblank]
  exact isCode_dropReturns

theorem isCode_splitOn_append {front : List Char} (h : ∃ row ∈ front.splitOn '\n', IsCode row)
    (back : List Char) : ∃ row ∈ (front ++ back).splitOn '\n', IsCode row := by
  induction back using List.reverseRecOn with
  | nil => rwa [List.append_nil]
  | append_singleton back x ih =>
    rw [← List.append_assoc]
    by_cases hx : x = '\n'
    · rw [hx, List.splitOn_append_cons_self]
      obtain ⟨row, hrow, hcode⟩ := ih
      exact ⟨row, List.mem_append_left _ hrow, hcode⟩
    · -- another character makes the last row longer
      obtain ⟨init, last, hrows, hlonger⟩ : ∃ init last,
          (front ++ back).splitOn '\n' = init ++ [last] ∧
            (front ++ back ++ [x]).splitOn '\n' = init ++ [last ++ [x]] := splitOn_concat hx
      rw [hrows] at ih
      rw [hlonger]
      obtain ⟨row, hrow, hcode⟩ := ih
      rcases List.mem_append.1 hrow with hrow | hrow
      · exact ⟨row, List.mem_append_left _ hrow, hcode⟩
      · rw [List.mem_singleton.1 hrow] at hcode
        exact ⟨last ++ [x], by simp, hcode.append [x]⟩

theorem HasCode.append {s : String} (h : HasCode s) (t : String) : HasCode (s ++ t) := by
  unfold HasCode rows
  rw [String.toList_append]
  exact isCode_splitOn_append h t.toList

theorem hasCode_of_isCode {text : String} (h : IsCode text.toList) : HasCode text := by
  obtain ⟨x, h, hx⟩ := h
  obtain ⟨hshown, front, back, htext, hfront⟩ := List.find?_eq_some_iff_append.1 h
  have hfeed : x ≠ '\n' := by
    rintro rfl
    exact absurd hshown (by decide)
  obtain ⟨init, last, hrows, hlonger⟩ : ∃ init last, front.splitOn '\n' = init ++ [last] ∧
      (front ++ [x]).splitOn '\n' = init ++ [last ++ [x]] := splitOn_concat hfeed
  have hlast : ∀ y ∈ last, isBlank y = true := by
    intro y hy
    have hjoin : ['\n'].intercalate (front.splitOn '\n') = front := List.intercalate_splitOn '\n'
    rw [hrows] at hjoin
    have hmem : y ∈ front := hjoin ▸ (infix_intercalate (by simp)).subset hy
    simpa using hfront y hmem
  have hcode : IsCode (last ++ [x]) := by
    rw [isCode_append_of_blank hlast]
    exact ⟨x, List.find?_cons_of_pos hshown, hx⟩
  have hstart : ∃ row ∈ (front ++ [x]).splitOn '\n', IsCode row :=
    ⟨last ++ [x], by simp [hlonger], hcode⟩
  unfold HasCode rows
  rw [htext, List.append_cons]
  exact isCode_splitOn_append hstart back

theorem hasCode_append_of_blank {s t : String} (h : blankText s = true) (ht : IsCode t.toList) :
    HasCode (s ++ t) := by
  apply hasCode_of_isCode
  rw [String.toList_append, isCode_append_of_blank (List.all_eq_true.1 h)]
  exact ht

def CommentsOnly (text : String) : Prop :=
  blankText text = false ∧ ¬HasCode text

instance (text : String) : Decidable (CommentsOnly text) :=
  inferInstanceAs (Decidable (_ ∧ _))

theorem CommentsOnly.of_append {s t : String} (h : CommentsOnly (s ++ t)) (ht : IsCode t.toList) :
    CommentsOnly s := by
  constructor
  · by_contra hs
    exact h.2 (hasCode_append_of_blank (by simpa using hs) ht)
  · exact fun hs => h.2 (hs.append t)

theorem feed_notMem_of_mem_lines {cs l : List Char} (h : l ∈ lines cs) : '\n' ∉ l := by
  fun_induction lines cs generalizing l with
  | case1 => cases h
  | case2 cs ih =>
    rcases List.mem_cons.1 h with rfl | h
    · exact List.not_mem_nil
    · exact ih h
  | case3 cs ih =>
    rcases List.mem_cons.1 h with rfl | h
    · exact List.not_mem_nil
    · exact ih h
  | case4 c cs hfeed _ hlines ih =>
    rw [List.mem_singleton.1 h]
    exact fun hx => hfeed (List.mem_singleton.1 hx).symm
  | case5 c cs hfeed _ first rest hlines ih =>
    rw [hlines] at ih
    rcases List.mem_cons.1 h with rfl | h
    · rw [List.mem_cons, not_or]
      exact ⟨fun hx => hfeed hx.symm, ih List.mem_cons_self⟩
    · exact ih (List.mem_cons_of_mem _ h)

theorem not_hasCode_leadLines (text : String) : ¬HasCode (leadLines "# " text) := by
  rw [leadLines, hasCode_intercalate]
  rintro ⟨t, ht, row, hrow, hcode⟩
  obtain ⟨l, hl, rfl⟩ := List.mem_map.1 ht
  have hfeed : '\n' ∉ ("# " ++ String.ofList l).toList := by
    simpa using feed_notMem_of_mem_lines hl
  rw [rows, List.splitOn_eq_singleton hfeed, List.mem_singleton] at hrow
  obtain ⟨x, hx, hne⟩ := hcode
  have hopen : opening? ("# " ++ String.ofList l).toList = some '#' := by
    rw [String.toList_append]
    exact List.find?_cons_of_pos (by decide)
  rw [hrow, hopen] at hx
  exact hne (Option.some.inj hx).symm

open Template in
theorem opening?_substitute {text : String} {x : Char} (h : opening? text.toList = some x)
    (hx : x ≠ '$') (value : Nat → Option String) :
    opening? (substitute text value).toList = some x := by
  obtain ⟨hshown, front, back, htext, hfront⟩ := List.find?_eq_some_iff_append.1 h
  have hlead : ∀ c ∈ front ++ [x], c ≠ '$' := by
    intro c hc
    rcases List.mem_append.1 hc with hc | hc
    · rintro rfl
      exact absurd (hfront _ hc) (by decide)
    · rwa [List.mem_singleton.1 hc]
  have hfilled : ((front ++ [x]).map Piece.char).flatMap (Piece.fill value) = front ++ [x] := by
    simp [List.flatMap_map, Piece.fill, Piece.position?, Piece.chars]
  have hresult : (substitute text value).toList =
      front ++ x :: (pieces back).flatMap (Piece.fill value) := by
    rw [substitute, String.toList_ofList, htext, List.append_cons, pieces_append hlead,
      List.flatMap_append, hfilled, ← List.append_cons]
  exact List.find?_eq_some_iff_append.2 ⟨hshown, front, _, hresult, hfront⟩

theorem hasCode_substitute {template : String} {row : List Char} {x : Char} (hrow : row ∈ rows template)
    (h : opening? row = some x) (hcode : x ≠ '#') (hx : x ≠ '$') (value : Nat → Option String) :
    HasCode (Template.substitute template value) := by
  have htemplate : template = String.ofList (['\n'].intercalate (rows template)) := by
    rw [intercalate_rows, String.ofList_toList]
  rw [htemplate]
  clear htemplate
  generalize rows template = rs at hrow ⊢
  induction rs with
  | nil => cases hrow
  | cons r rs ih =>
    have hfirst (h : row = r) : HasCode (Template.substitute (String.ofList r) value) := by
      subst h
      apply hasCode_of_isCode
      exact ⟨x, opening?_substitute (by rwa [String.toList_ofList]) hx value, hcode⟩
    cases rs with
    | nil =>
      rw [List.intercalate_singleton]
      exact hfirst (List.mem_singleton.1 hrow)
    | cons r' rs =>
      have hjoin : String.ofList (['\n'].intercalate (r :: r' :: rs)) =
          String.ofList r ++ "\n" ++ String.ofList (['\n'].intercalate (r' :: rs)) := by
        rw [List.intercalate_cons_cons, String.ofList_append, String.ofList_append]
      rw [hjoin, Template.substitute_append_feed, hasCode_append_feed]
      rcases List.mem_cons.1 hrow with hrow | hrow
      · exact .inl (hfirst hrow)
      · exact .inr (ih hrow)

end Text

open Text

theorem hasCode_statementText {o : Options} (hunit : ∀ x ∈ o.indent.toList, x = ' ' ∨ x = '\t')
    (indented : Bool) (statement : String) :
    HasCode (statementText o indented statement) ↔ HasCode statement := by
  cases indented with
  | true => exact hasCode_indent hunit statement
  | false => exact hasCode_close.trans hasCode_dropFeeds

theorem bodyText_header (o : Options) (header : String) (indented : Bool)
    (statements : List String) : bodyText o (some header) indented statements =
      header ++ "\n" ++ bodyText o none indented statements := by
  unfold bodyText
  dsimp only
  split <;> simp

theorem bodyText_of_blank {o : Options} {statements : List String}
    (h : ∀ t ∈ statements, blankText t = true) (indented : Bool) :
    bodyText o none indented statements = if indented then o.indent ++ "pass\n" else "" := by
  have hshown : statements.filter (fun s => !blankText s) = [] := by simpa using h
  simp [bodyText, hshown]

theorem hasCode_bodyText {o : Options} (hunit : ∀ x ∈ o.indent.toList, x = ' ' ∨ x = '\t')
    (indented : Bool) (statements : List String) :
    HasCode (bodyText o none indented statements) ↔
      indented = true ∧ (∀ t ∈ statements, blankText t = true) ∨ ∃ t ∈ statements, HasCode t := by
  by_cases h : ∀ t ∈ statements, blankText t = true
  · have hnone : ¬∃ t ∈ statements, HasCode t := by
      rintro ⟨t, ht, hcode⟩
      exact not_hasCode_of_blank (h t ht) hcode
    rw [bodyText_of_blank h]
    cases indented with
    | true =>
      have hblank : blankText o.indent = true := List.all_eq_true.2 (isBlank_of_unit hunit)
      have hpass : HasCode (o.indent ++ "pass\n") :=
        hasCode_append_of_blank hblank (by decide)
      simpa [hpass] using .inl h
    | false => simpa [hnone] using not_hasCode_empty
  · have hshown : (statements.filter fun s => !blankText s) ≠ [] := by simpa using h
    have hbody : bodyText o none indented statements = String.intercalate "\n"
        ((statements.filter fun s => !blankText s).map (statementText o indented)) := by
      simp [bodyText, hshown]
    rw [hbody, hasCode_intercalate, or_iff_right fun hall => h hall.2]
    simp only [List.mem_map, exists_exists_and_eq_and, hasCode_statementText hunit, List.mem_filter]
    constructor
    · rintro ⟨t, ⟨ht, -⟩, hcode⟩
      exact ⟨t, ht, hcode⟩
    · rintro ⟨t, ht, hcode⟩
      have hnot : blankText t ≠ true := fun hblank => not_hasCode_of_blank hblank hcode
      exact ⟨t, ⟨ht, by simpa using hnot⟩, hcode⟩

end VisualProgram
