import Mathlib.Data.List.DropRight
import VisualProgram.Proofs.Characters

namespace VisualProgram

namespace Text

def rows (text : String) : List (List Char) :=
  text.toList.splitOn '\n'

theorem intercalate_rows (text : String) : ['\n'].intercalate (rows text) = text.toList :=
  List.intercalate_splitOn '\n'

def closeRows (rs : List (List Char)) : String :=
  closeLines (rs.map String.ofList)

def atDepth (unit : String) (n : Nat) (row : List Char) : List Char :=
  if row = [] then [] else (List.replicate n unit.toList).flatten ++ row

theorem atDepth_zero (unit : String) (row : List Char) : atDepth unit 0 row = row := by
  unfold atDepth
  split
  · next h => exact h.symm
  · rfl

theorem atDepth_succ (unit : String) (n : Nat) (row : List Char) :
    atDepth unit (n + 1) row = atDepth unit 1 (atDepth unit n row) := by
  unfold atDepth
  by_cases h : row = []
  · simp [h]
  · simp [h, List.replicate_succ]

theorem atDepth_eq_nil_iff {unit : String} {n : Nat} {row : List Char} :
    atDepth unit n row = [] ↔ row = [] := by
  unfold atDepth
  split <;> simp_all

theorem feed_notMem_atDepth {unit : String} {n : Nat} {row : List Char} (hunit : Lacks '\n' unit)
    (hrow : '\n' ∉ row) : '\n' ∉ atDepth unit n row := by
  rw [atDepth]
  split
  · exact List.not_mem_nil
  · have hunits : '\n' ∉ (List.replicate n unit.toList).flatten := by
      simpa using fun _ => show '\n' ∉ unit.toList from hunit
    rw [List.mem_append, not_or]
    exact ⟨hunits, hrow⟩

theorem feed_notMem_of_mem_splitOn {cs row : List Char} (h : row ∈ cs.splitOn '\n') :
    '\n' ∉ row := by
  induction cs generalizing row with
  | nil =>
    rw [List.splitOn_nil, List.mem_singleton] at h
    simp [h]
  | cons c cs ih =>
    rw [List.splitOn_cons_eq_if_modifyHead] at h
    split at h
    · rcases List.mem_cons.1 h with rfl | h
      · exact List.not_mem_nil
      · exact ih h
    · next hc =>
      obtain ⟨first, rest, hrest⟩ := List.exists_cons_of_ne_nil (List.splitOn_ne_nil '\n' cs)
      rw [hrest] at h ih
      rcases List.mem_cons.1 h with rfl | h
      · rw [List.mem_cons, not_or]
        exact ⟨fun hfeed => hc (by simp [← hfeed]), ih List.mem_cons_self⟩
      · exact ih (List.mem_cons_of_mem _ h)

theorem splitOn_concat {cs : List Char} {x : Char} (h : x ≠ '\n') :
    ∃ init r, cs.splitOn '\n' = init ++ [r] ∧ (cs ++ [x]).splitOn '\n' = init ++ [r ++ [x]] := by
  induction cs with
  | nil => exact ⟨[], [], rfl, List.splitOn_eq_singleton (by simpa using h.symm)⟩
  | cons c cs ih =>
    obtain ⟨init, r, hcs, hconcat⟩ := ih
    simp only [List.cons_append, List.splitOn_cons_eq_if_modifyHead, hcs, hconcat]
    split
    · exact ⟨[] :: init, r, rfl, rfl⟩
    · cases init with
      | nil => exact ⟨[], c :: r, rfl, rfl⟩
      | cons first init => exact ⟨(c :: first) :: init, r, rfl, rfl⟩

theorem dropTrailing_eq_rdropWhile (p : Char → Bool) (cs : List Char) :
    dropTrailing p cs = cs.rdropWhile p := by
  induction cs using List.reverseRecOn with
  | nil => rfl
  | append_singleton cs x ih =>
    by_cases hx : p x = true
    · rw [dropTrailing_append_of_all cs (by simpa using hx), ih, List.rdropWhile_concat_pos _ _ _ hx]
    · rw [List.rdropWhile_concat_neg _ _ _ hx]
      clear ih
      induction cs with
      | nil => simp [dropTrailing, hx]
      | cons c cs ih =>
        rw [List.cons_append, dropTrailing, ih]
        simp

theorem dropFeeds_toList (text : String) :
    (dropFeeds text).toList = text.toList.rdropWhile (· == '\n') := by
  rw [dropFeeds, String.toList_ofList, dropTrailing_eq_rdropWhile]

def EndsFull (rs : List (List Char)) : Prop :=
  ∃ init r, rs = init ++ [r] ∧ r ≠ []

theorem EndsFull.of_suffix {rs ss : List (List Char)} (h : EndsFull rs) (hs : rs <:+ ss) :
    EndsFull ss := by
  obtain ⟨init, r, rfl, hr⟩ := h
  obtain ⟨front, rfl⟩ := hs
  exact ⟨front ++ init, r, (List.append_assoc ..).symm, hr⟩

theorem EndsFull.map_atDepth {rs : List (List Char)} (h : EndsFull rs) (unit : String) (n : Nat) :
    EndsFull (rs.map (atDepth unit n)) := by
  obtain ⟨init, r, rfl, hr⟩ := h
  exact ⟨init.map (atDepth unit n), atDepth unit n r, by simp, mt atDepth_eq_nil_iff.1 hr⟩

theorem endsFull_rows_dropFeeds {text : String} (h : dropFeeds text ≠ "") :
    EndsFull (rows (dropFeeds text)) := by
  have hne : text.toList.rdropWhile (· == '\n') ≠ [] := by
    rw [← dropFeeds_toList]
    simpa using h
  have hlast := List.rdropWhile_last_not _ _ hne
  rw [rows, dropFeeds_toList, ← List.dropLast_concat_getLast hne]
  obtain ⟨init, r, -, hrows⟩ := splitOn_concat (by simpa using hlast)
  exact ⟨init, _, hrows, by simp⟩

theorem infix_rows_dropFeeds {text : String} {rs : List (List Char)} (hrs : EndsFull rs)
    (h : rs <:+: rows text) : rs <:+: rows (dropFeeds text) := by
  rw [rows, dropFeeds_toList]
  rw [rows] at h
  generalize text.toList = cs at h ⊢
  induction cs using List.reverseRecOn with
  | nil => exact h
  | append_singleton cs x ih =>
    by_cases hx : x = '\n'
    · subst hx
      rw [List.rdropWhile_concat_pos _ _ _ rfl]
      apply ih
      rw [List.splitOn_append_cons_self, List.splitOn_nil, List.infix_concat_iff] at h
      refine h.resolve_left fun hsuffix => ?_
      obtain ⟨init, r, rfl, hr⟩ := hrs
      obtain hnil | ⟨_, hlast, -⟩ := List.suffix_concat_iff.1 hsuffix
      · simp at hnil
      · exact hr (List.singleton_inj.1 (List.append_inj' hlast rfl).2)
    · rwa [List.rdropWhile_concat_neg _ _ _ (by simpa using hx)]

theorem prefix_rows_dropFeeds (text : String) : rows (dropFeeds text) <+: rows text := by
  rw [rows, rows, dropFeeds_toList]
  generalize text.toList = cs
  induction cs using List.reverseRecOn with
  | nil => exact List.prefix_refl _
  | append_singleton cs x ih =>
    by_cases hx : x = '\n'
    · subst hx
      rw [List.rdropWhile_concat_pos _ _ _ rfl, List.splitOn_append_cons_self]
      exact ih.trans (List.prefix_append _ _)
    · rw [List.rdropWhile_concat_neg _ _ _ (by simpa using hx)]

theorem rows_append_feed (s t : String) : rows (s ++ "\n" ++ t) = rows s ++ rows t := by
  have hchars : (s ++ "\n" ++ t).toList = s.toList ++ '\n' :: t.toList := by simp
  rw [rows, hchars, List.splitOn_append_cons_self]
  rfl

theorem toList_closeRows (rs : List (List Char)) :
    (closeRows rs).toList = rs.flatMap (· ++ ['\n']) := by
  simp [closeRows, closeLines, List.flatMap_map]

theorem closeRows_append (rs ss : List (List Char)) :
    closeRows (rs ++ ss) = closeRows rs ++ closeRows ss := by
  simp [closeRows, closeLines]

theorem closeRows_singleton (row : List Char) : closeRows [row] = String.ofList row ++ "\n" := by
  simp [closeRows, closeLines]

theorem closeRows_rows (text : String) : closeRows (rows text) = text ++ "\n" := by
  have hjoin {rs : List (List Char)} (h : rs ≠ []) :
      rs.flatMap (· ++ ['\n']) = ['\n'].intercalate rs ++ ['\n'] := by
    induction rs with
    | nil => exact absurd rfl h
    | cons r rs ih =>
      cases rs with
      | nil => simp
      | cons s ss =>
        rw [List.flatMap_cons, ih (by simp), List.intercalate_cons_cons]
        simp
  have hne : rows text ≠ [] := List.splitOn_ne_nil _ _
  rw [← String.toList_inj, toList_closeRows, hjoin hne, intercalate_rows]
  simp

theorem rows_closeRows_append {rs : List (List Char)} (h : ∀ r ∈ rs, '\n' ∉ r) (text : String) :
    rows (closeRows rs ++ text) = rs ++ rows text := by
  induction rs with
  | nil => simp [closeRows, closeLines]
  | cons r rs ih =>
    have hr : rows (String.ofList r) = [r] := by
      rw [rows, String.toList_ofList]
      exact List.splitOn_eq_singleton (h r List.mem_cons_self)
    have hcons : closeRows (r :: rs) = String.ofList r ++ "\n" ++ closeRows rs := by
      rw [← closeRows_singleton, ← closeRows_append]
      rfl
    rw [hcons, String.append_assoc, rows_append_feed, hr,
      ih fun s hs => h s (List.mem_cons_of_mem _ hs)]
    rfl

theorem intercalate_closeRows (rss : List (List (List Char))) :
    String.intercalate "\n" (rss.map closeRows) = closeRows ([[]].intercalate rss) := by
  have hfeed : closeRows [[]] = "\n" := rfl
  induction rss with
  | nil => rfl
  | cons rs rss ih =>
    cases rss with
    | nil => simp
    | cons ss rss =>
      rw [List.map_cons, List.map_cons, String.intercalate_cons_cons, ← List.map_cons, ih,
        List.intercalate_cons_cons, closeRows_append, closeRows_append, hfeed]

def dropReturn (row : List Char) : List Char :=
  if row.getLast? = some '\r' then row.dropLast else row

def dropReturns : List (List Char) → List (List Char)
  | [] => []
  | [row] => [row]
  | row :: rs => dropReturn row :: dropReturns rs

theorem dropReturns_cons (row : List Char) {rs : List (List Char)} (h : rs ≠ []) :
    dropReturns (row :: rs) = dropReturn row :: dropReturns rs := by
  cases rs with
  | nil => exact absurd rfl h
  | cons r rs => rfl

theorem dropReturns_ne_nil {rs : List (List Char)} (h : rs ≠ []) : dropReturns rs ≠ [] := by
  obtain ⟨row, rs, rfl⟩ := List.exists_cons_of_ne_nil h
  cases rs with
  | nil => simp [dropReturns]
  | cons r rs => simp [dropReturns]

theorem dropReturn_cons {c : Char} {row : List Char} (h : row = [] → c ≠ '\r') :
    dropReturn (c :: row) = c :: dropReturn row := by
  cases row with
  | nil => simp [dropReturn, h rfl]
  | cons d row =>
    unfold dropReturn
    rw [List.getLast?_cons_cons, List.dropLast_cons_of_ne_nil (by simp)]
    split <;> rfl

theorem dropReturns_eq_self {rs : List (List Char)} (h : ∀ row ∈ rs, '\r' ∉ row) :
    dropReturns rs = rs := by
  fun_induction dropReturns rs with
  | case1 => rfl
  | case2 row => rfl
  | case3 row rs hrs ih =>
    have hrow : dropReturn row = row :=
      if_neg fun hlast => h row List.mem_cons_self (List.mem_of_getLast? hlast)
    rw [hrow, ih fun r hr => h r (List.mem_cons_of_mem _ hr)]

theorem feed_prefix_iff {cs row : List Char} {rs : List (List Char)}
    (h : cs.splitOn '\n' = row :: rs) : ['\n'] <+: cs ↔ row = [] ∧ rs ≠ [] := by
  have hrow : '\n' ∉ row := feed_notMem_of_mem_splitOn (h ▸ List.mem_cons_self)
  have hjoin : ['\n'].intercalate (cs.splitOn '\n') = cs := List.intercalate_splitOn '\n'
  rw [h] at hjoin
  cases rs with
  | nil =>
    rw [List.intercalate_singleton] at hjoin
    subst hjoin
    simpa using fun hstart : ['\n'] <+: row => hrow (hstart.subset List.mem_cons_self)
  | cons r rs =>
    rw [List.intercalate_cons_cons] at hjoin
    subst hjoin
    cases row with
    | nil => simp
    | cons d row =>
      have hd : '\n' ≠ d := fun hd => hrow (hd ▸ List.mem_cons_self)
      simp [hd]

theorem lines_eq_dropReturns {cs : List Char} (hne : cs ≠ []) (hlast : cs.getLast? ≠ some '\n') :
    lines cs = dropReturns (cs.splitOn '\n') := by
  have hsplit (cs : List Char) : cs.splitOn '\n' ≠ [] := List.splitOn_ne_nil _ _
  fun_induction lines cs with
  | case1 => exact absurd rfl hne
  | case2 cs ih =>
    have hcs : cs ≠ [] := by
      rintro rfl
      exact hlast rfl
    rw [List.getLast?_cons_of_ne_nil hcs] at hlast
    have hrows : ('\n' :: cs).splitOn '\n' = [] :: cs.splitOn '\n' := by
      simp [List.splitOn_cons_eq_if_modifyHead]
    rw [ih hcs hlast, hrows, dropReturns_cons _ (hsplit cs)]
    rfl
  | case3 cs ih =>
    have hcs : cs ≠ [] := by
      rintro rfl
      exact hlast rfl
    rw [List.getLast?_cons_cons, List.getLast?_cons_of_ne_nil hcs] at hlast
    have hrows : ('\r' :: '\n' :: cs).splitOn '\n' = ['\r'] :: cs.splitOn '\n' := by
      simp [List.splitOn_cons_eq_if_modifyHead]
    rw [ih hcs hlast, hrows, dropReturns_cons _ (hsplit cs)]
    rfl
  | case4 c cs hfeed _ hlines ih =>
    have hc : '\n' ∉ [c] := fun h => hfeed (List.mem_singleton.1 h).symm
    have hcs : cs = [] := by
      by_contra hcs
      rw [List.getLast?_cons_of_ne_nil hcs] at hlast
      exact dropReturns_ne_nil (hsplit cs) ((ih hcs hlast).symm.trans hlines)
    rw [hcs, List.splitOn_eq_singleton hc]
    rfl
  | case5 c cs hfeed hreturn first rest hlines ih =>
    have hcs : cs ≠ [] := by
      rintro rfl
      cases hlines
    rw [List.getLast?_cons_of_ne_nil hcs] at hlast
    obtain ⟨row, rs, hrows⟩ := List.exists_cons_of_ne_nil (hsplit cs)
    have hcons : (c :: cs).splitOn '\n' = (c :: row) :: rs := by
      rw [List.splitOn_cons_eq_if_modifyHead, if_neg (by simpa using hfeed), hrows]
      rfl
    have hinner := hlines.symm.trans (ih hcs hlast)
    rw [hcons]
    rw [hrows] at hinner
    cases rs with
    | nil =>
      cases hinner
      rfl
    | cons r rs =>
      -- an empty first row means a line feed behind `c`, and that case has gone before
      have hc : row = [] → c ≠ '\r' := by
        intro hrow hc
        obtain ⟨cs', rfl⟩ := (feed_prefix_iff hrows).2 ⟨hrow, by simp⟩
        exact hreturn cs' hc rfl
      rw [dropReturns_cons row (by simp)] at hinner
      cases hinner
      rw [dropReturns_cons (c :: row) (by simp), dropReturn_cons hc]

section

variable {α : Type} {sep l : List α} {ls : List (List α)} {a : α}

theorem suffix_intercalate_concat : l <:+ sep.intercalate (ls ++ [l]) := by
  induction ls with
  | nil => simp
  | cons k ks ih =>
    rw [List.cons_append, List.intercalate_cons_of_ne_nil (by simp)]
    exact ih.trans (List.suffix_append _ _)

theorem infix_intercalate (h : l ∈ ls) : l <:+: sep.intercalate ls := by
  induction ls with
  | nil => cases h
  | cons k ks ih =>
    cases ks with
    | nil =>
      rw [List.intercalate_singleton, List.mem_singleton.1 h]
    | cons k' ks =>
      rw [List.intercalate_cons_cons, List.append_assoc]
      rcases List.mem_cons.1 h with rfl | h
      · exact (List.prefix_append _ _).isInfix
      · exact ((ih h).trans (List.suffix_append _ _).isInfix).trans (List.suffix_append _ _).isInfix

theorem mem_intercalate (h : a ∈ sep.intercalate ls) : a ∈ sep ∨ ∃ l ∈ ls, a ∈ l := by
  induction ls with
  | nil => simp at h
  | cons k ks ih =>
    cases ks with
    | nil => exact .inr ⟨k, List.mem_cons_self, by simpa using h⟩
    | cons k' ks =>
      rw [List.intercalate_cons_cons, List.append_assoc, List.mem_append, List.mem_append] at h
      rcases h with h | h | h
      · exact .inr ⟨k, List.mem_cons_self, h⟩
      · exact .inl h
      · obtain hsep | ⟨l, hl, ha⟩ := ih h
        · exact .inl hsep
        · exact .inr ⟨l, List.mem_cons_of_mem _ hl, ha⟩

end

end Text

open Text

def bodyRows (unit : String) (statements : List String) : List (List Char) :=
  match statements.filter fun s => !blankText s with
  | [] => [unit.toList ++ "pass".toList]
  | s :: ss => [[]].intercalate ((s :: ss).map fun t => (rows (dropFeeds t)).map (atDepth unit 1))

def layout (unit header : String) (statements : List String) : String :=
  header ++ "\n" ++ closeRows (bodyRows unit statements)

theorem dropFeeds_ne_empty {text : String} (h : blankText text = false) : dropFeeds text ≠ "" := by
  intro hempty
  have hall : ∀ c ∈ text.toList, c = '\n' := by
    have hchars := congrArg String.toList hempty
    rw [dropFeeds_toList, String.toList_empty, List.rdropWhile_eq_nil_iff] at hchars
    simpa using hchars
  have hblank : blankText text = true := by
    rw [blankText, List.all_eq_true]
    intro c hc
    rw [hall c hc]
    decide
  rw [h] at hblank
  cases hblank

theorem indent_eq_closeRows_dropReturns {unit text : String} (h : dropFeeds text ≠ "") :
    indent unit text = closeRows ((dropReturns (rows (dropFeeds text))).map (atDepth unit 1)) := by
  have hne : text.toList.rdropWhile (· == '\n') ≠ [] := by
    rw [← dropFeeds_toList]
    simpa using h
  have hlast : (text.toList.rdropWhile (· == '\n')).getLast? ≠ some '\n' := by
    have hlast := List.rdropWhile_last_not _ _ hne
    rw [List.getLast?_eq_some_getLast hne]
    simpa using hlast
  have hlines : lines (text.toList.rdropWhile (· == '\n')) = dropReturns (rows (dropFeeds text)) := by
    rw [rows, dropFeeds_toList]
    exact lines_eq_dropReturns hne hlast
  have hrow (row : List Char) : indentLine unit.toList row = atDepth unit 1 row ++ ['\n'] := by
    rw [indentLine, atDepth]
    cases row <;> simp
  rw [← String.toList_inj, toList_closeRows, List.flatMap_map, indent, String.toList_ofList,
    indentChars, dropTrailing_eq_rdropWhile, hlines, funext hrow]

section

variable {unit : String} {statements : List String}

/-- The rows of a body: those of its statements that are not blank, with an empty row between two
statements, or else a row with `pass`. -/
def stackedRows (unit : String) (f : String → List (List Char)) (statements : List String) :
    List (List Char) :=
  match statements.filter fun s => !blankText s with
  | [] => [unit.toList ++ "pass".toList]
  | s :: ss => [[]].intercalate ((s :: ss).map f)

variable {f f' : String → List (List Char)}

theorem stackedRows_of_shown (h : (statements.filter fun s => !blankText s) ≠ []) :
    stackedRows unit f statements =
      [[]].intercalate ((statements.filter fun s => !blankText s).map f) := by
  unfold stackedRows
  split
  · next hnil => exact absurd hnil h
  · next s ss hshown => rw [hshown]

theorem stackedRows_congr (h : ∀ t ∈ statements, f t = f' t) :
    stackedRows unit f statements = stackedRows unit f' statements := by
  have hmap : (statements.filter fun s => !blankText s).map f =
      (statements.filter fun s => !blankText s).map f' :=
    List.map_congr_left fun t ht => h t (List.mem_filter.1 ht).1
  by_cases hshown : (statements.filter fun s => !blankText s) = []
  · rw [stackedRows, stackedRows, hshown]
  · rw [stackedRows_of_shown hshown, stackedRows_of_shown hshown, hmap]

theorem infix_stackedRows {t : String} (ht : t ∈ statements) (hblank : blankText t = false) :
    f t <:+: stackedRows unit f statements := by
  have hshown : t ∈ statements.filter fun s => !blankText s :=
    List.mem_filter.2 ⟨ht, by simp [hblank]⟩
  rw [stackedRows_of_shown (List.ne_nil_of_mem hshown)]
  exact infix_intercalate (List.mem_map_of_mem hshown)

theorem stackedRows_ne_nil (hf : ∀ t, f t ≠ []) : stackedRows unit f statements ≠ [] := by
  by_cases h : (statements.filter fun s => !blankText s) = []
  · simp [stackedRows, h]
  · obtain ⟨t, ht⟩ := List.exists_mem_of_ne_nil _ h
    obtain ⟨hmem, hblank⟩ := List.mem_filter.1 ht
    intro hnil
    apply hf t
    have hinfix : f t <:+: stackedRows unit f statements :=
      infix_stackedRows hmem (by simpa using hblank)
    rwa [hnil, List.infix_nil] at hinfix

theorem feed_notMem_intercalate {rss : List (List (List Char))}
    (h : ∀ rs ∈ rss, ∀ r ∈ rs, '\n' ∉ r) : ∀ r ∈ [[]].intercalate rss, '\n' ∉ r := by
  intro r hr
  obtain hsep | ⟨rs, hrs, hr⟩ := mem_intercalate hr
  · rw [List.mem_singleton.1 hsep]
    exact List.not_mem_nil
  · exact h rs hrs r hr

theorem feed_notMem_stackedRows (hunit : Lacks '\n' unit) (hf : ∀ t, ∀ r ∈ f t, '\n' ∉ r) :
    ∀ r ∈ stackedRows unit f statements, '\n' ∉ r := by
  intro r hr
  by_cases h : (statements.filter fun s => !blankText s) = []
  · rw [stackedRows, h, List.mem_singleton] at hr
    rw [hr, List.mem_append, not_or]
    exact ⟨hunit, by decide⟩
  · rw [stackedRows_of_shown h] at hr
    refine feed_notMem_intercalate (fun rs hrs r hr => ?_) r hr
    obtain ⟨t, -, rfl⟩ := List.mem_map.1 hrs
    exact hf t r hr

theorem bodyRows_eq_stackedRows : bodyRows unit statements =
    stackedRows unit (fun t => (rows (dropFeeds t)).map (atDepth unit 1)) statements :=
  rfl

/-- The rows of an indented body as it is laid out. A carriage return before a line feed inside a
statement is not in them. -/
def innerRows (unit : String) (statements : List String) : List (List Char) :=
  stackedRows unit (fun t => (dropReturns (rows (dropFeeds t))).map (atDepth unit 1)) statements

theorem bodyText_innerRows (o : Options) (header : String) (statements : List String) :
    bodyText o header true statements =
      header ++ "\n" ++ closeRows (innerRows o.indent statements) := by
  have hshown : ∀ t ∈ statements.filter fun s => !blankText s, statementText o true t =
      closeRows ((dropReturns (rows (dropFeeds t))).map (atDepth o.indent 1)) := by
    intro t ht
    have hblank : blankText t = false := by simpa using (List.mem_filter.1 ht).2
    exact indent_eq_closeRows_dropReturns (dropFeeds_ne_empty hblank)
  have hlead : ((some header).map (· ++ "\n")).getD "" = header ++ "\n" := rfl
  unfold bodyText innerRows stackedRows
  dsimp only
  rw [List.map_congr_left hshown, hlead]
  cases statements.filter fun s => !blankText s with
  | nil =>
    rw [closeRows_singleton]
    simp [← String.toList_inj]
  | cons s ss =>
    rw [← intercalate_closeRows, List.map_map, if_neg (by simp), Function.comp_def]

theorem innerRows_ne_nil (unit : String) (statements : List String) :
    innerRows unit statements ≠ [] := by
  apply stackedRows_ne_nil
  intro t
  rw [Ne, List.map_eq_nil_iff]
  exact dropReturns_ne_nil (List.splitOn_ne_nil _ _)

theorem innerRows_eq_bodyRows (hreturn : ∀ t ∈ statements, Lacks '\r' t) :
    innerRows unit statements = bodyRows unit statements := by
  rw [innerRows, bodyRows_eq_stackedRows]
  apply stackedRows_congr
  intro t ht
  rw [dropReturns_eq_self]
  intro row hrow hx
  have hmem : '\r' ∈ ['\n'].intercalate (rows (dropFeeds t)) := (infix_intercalate hrow).subset hx
  rw [intercalate_rows] at hmem
  exact (hreturn t ht).dropFeeds hmem

theorem bodyText_indented {o : Options} (hreturn : ∀ t ∈ statements, Lacks '\r' t)
    (header : String) :
    bodyText o header true statements = layout o.indent header statements := by
  rw [bodyText_innerRows, innerRows_eq_bodyRows hreturn]
  rfl

end

theorem bodyText_level (o : Options) (statements : List String) :
    bodyText o none false statements = closeRows ([[]].intercalate
      ((statements.filter fun s => !blankText s).map fun t => rows (dropFeeds t))) := by
  have hshown : ∀ t ∈ statements.filter fun s => !blankText s,
      statementText o false t = closeRows (rows (dropFeeds t)) := by
    intro t _
    rw [closeRows_rows]
    rfl
  unfold bodyText
  dsimp only
  rw [List.map_congr_left hshown, ← intercalate_closeRows, List.map_map]
  cases statements.filter fun s => !blankText s with
  | nil => rfl
  | cons s ss => simp [Function.comp_def]

section

variable {unit : String} {statements : List String}

theorem endsFull_bodyRows (unit : String) (statements : List String) :
    EndsFull (bodyRows unit statements) := by
  rw [bodyRows_eq_stackedRows]
  by_cases h : (statements.filter fun s => !blankText s) = []
  · rw [stackedRows, h]
    exact ⟨[], _, rfl, by simp⟩
  · obtain ⟨init, t, hshown⟩ := (List.eq_nil_or_concat' _).resolve_left h
    have ht : t ∈ statements.filter fun s => !blankText s := by
      rw [hshown]
      exact List.mem_append_right _ (List.mem_singleton_self t)
    have hblank : blankText t = false := by simpa using (List.mem_filter.1 ht).2
    rw [stackedRows_of_shown h, hshown, List.map_append, List.map_singleton]
    have hfull := endsFull_rows_dropFeeds (dropFeeds_ne_empty hblank)
    exact (hfull.map_atDepth unit 1).of_suffix suffix_intercalate_concat

theorem feed_notMem_bodyRows (hunit : Lacks '\n' unit) :
    ∀ r ∈ bodyRows unit statements, '\n' ∉ r := by
  rw [bodyRows_eq_stackedRows]
  apply feed_notMem_stackedRows hunit
  intro t r hr
  obtain ⟨row, hrow, rfl⟩ := List.mem_map.1 hr
  exact feed_notMem_atDepth hunit (feed_notMem_of_mem_splitOn hrow)

theorem infix_bodyRows {t : String} (ht : t ∈ statements) (hblank : blankText t = false) :
    (rows (dropFeeds t)).map (atDepth unit 1) <:+: bodyRows unit statements :=
  infix_stackedRows (f := fun t => (rows (dropFeeds t)).map (atDepth unit 1)) ht hblank

theorem infix_rows_level {o : Options} {t : String} (ht : t ∈ statements)
    (hblank : blankText t = false) :
    rows (dropFeeds t) <:+: rows (bodyText o none false statements) := by
  have hshown : t ∈ statements.filter fun s => !blankText s :=
    List.mem_filter.2 ⟨ht, by simp [hblank]⟩
  have hinfix : rows (dropFeeds t) <:+: [[]].intercalate
      ((statements.filter fun s => !blankText s).map fun t => rows (dropFeeds t)) :=
    infix_intercalate (List.mem_map_of_mem hshown)
  have hfeed : ∀ r ∈ [[]].intercalate
      ((statements.filter fun s => !blankText s).map fun t => rows (dropFeeds t)), '\n' ∉ r := by
    apply feed_notMem_intercalate
    intro rs hrs r hr
    obtain ⟨t, -, rfl⟩ := List.mem_map.1 hrs
    exact feed_notMem_of_mem_splitOn hr
  have hrows := rows_closeRows_append hfeed ""
  rw [String.append_empty] at hrows
  rw [bodyText_level, hrows]
  exact hinfix.trans (List.prefix_append _ _).isInfix

theorem not_blank_of_deeper {n : Nat} {s t : String} (hs : blankText s = false)
    (h : (rows (dropFeeds s)).map (atDepth unit n) <:+: rows t) : blankText t = false := by
  obtain ⟨c, hc, hblank⟩ : ∃ c ∈ s.toList, isBlank c = false := by
    simpa [blankText] using hs
  have hfeed : c ≠ '\n' := by
    rintro rfl
    revert hblank
    decide
  have hkept : c ∈ (dropFeeds s).toList := by
    rw [← List.mem_reverse, ← List.takeWhile_append_dropWhile (p := (· == '\n'))
      (l := s.toList.reverse), List.mem_append] at hc
    rw [dropFeeds_toList, List.rdropWhile, List.mem_reverse]
    refine hc.resolve_left fun htake => hfeed ?_
    simpa using List.mem_takeWhile_imp htake
  obtain ⟨row, hrow, hcrow⟩ : ∃ row ∈ rows (dropFeeds s), c ∈ row := by
    rw [← intercalate_rows] at hkept
    obtain hsep | hrow := mem_intercalate hkept
    · exact absurd (List.mem_singleton.1 hsep) hfeed
    · exact hrow
  have hdeep : c ∈ atDepth unit n row := by
    rw [atDepth, if_neg (List.ne_nil_of_mem hcrow)]
    exact List.mem_append_right _ hcrow
  have hmem : atDepth unit n row ∈ rows t := h.subset (List.mem_map_of_mem hrow)
  have hct : c ∈ t.toList := by
    rw [← intercalate_rows]
    exact (infix_intercalate hmem).subset hdeep
  simpa [blankText] using ⟨c, hct, hblank⟩

theorem dropFeeds_layout (hunit : Lacks '\n' unit) (header : String) (statements : List String) :
    dropFeeds (layout unit header statements) ++ "\n" = layout unit header statements := by
  obtain ⟨init, r, hrows, hr⟩ := endsFull_bodyRows unit statements
  have hmem : r ∈ bodyRows unit statements := by simp [hrows]
  have hlast : r.getLast hr ≠ '\n' := fun h =>
    feed_notMem_bodyRows hunit r hmem (h ▸ List.getLast_mem hr)
  have htext : (layout unit header statements).toList =
      (header ++ "\n" ++ closeRows init).toList ++ r ++ ['\n'] := by
    simp [layout, hrows, closeRows_append, closeRows_singleton]
  have hkept : ((header ++ "\n" ++ closeRows init).toList ++ r).rdropWhile (· == '\n') =
      (header ++ "\n" ++ closeRows init).toList ++ r := by
    rw [List.rdropWhile_eq_self_iff]
    intro hne
    rw [List.getLast_append_of_ne_nil hne hr]
    simpa using hlast
  rw [← String.toList_inj, String.toList_append, dropFeeds_toList, htext,
    List.rdropWhile_concat_pos _ _ _ rfl, hkept]
  rfl

theorem infix_rows_closeRows {rs : List (List Char)} (h : ∀ r ∈ rs, '\n' ∉ r)
    (before header after : String) :
    rs <:+: rows (before ++ (header ++ "\n" ++ closeRows rs) ++ after) := by
  have htext : before ++ (header ++ "\n" ++ closeRows rs) ++ after =
      before ++ header ++ "\n" ++ (closeRows rs ++ after) := by
    simp [String.append_assoc]
  rw [htext, rows_append_feed, rows_closeRows_append h, ← List.append_assoc]
  exact ⟨_, _, rfl⟩

end

end VisualProgram
