import VisualProgram.Proofs.Rows
import VisualProgram.Proofs.SharedPass

namespace VisualProgram

namespace Text

def keptRows (text : String) : List (List Char) :=
  if dropFeeds text = "" then [] else rows (dropFeeds text)

theorem closeRows_keptRows (text : String) :
    closeRows (keptRows text) = if dropFeeds text = "" then "" else dropFeeds text ++ "\n" := by
  unfold keptRows
  split
  · rfl
  · exact closeRows_rows _

theorem indent_eq_closeRows_keptRows (unit text : String) :
    indent unit text = closeRows ((dropReturns (keptRows text)).map (atDepth unit 1)) := by
  unfold keptRows
  split
  · next hempty =>
    have hkept : text.toList.rdropWhile (· == '\n') = [] := by
      rw [← dropFeeds_toList, hempty, String.toList_empty]
    rw [← String.toList_inj, indent, String.toList_ofList, indentChars, dropTrailing_eq_rdropWhile,
      hkept]
    rfl
  · next hfull => exact indent_eq_closeRows_dropReturns hfull

theorem drop_atDepth (unit : String) (row : List Char) :
    (atDepth unit 1 row).drop unit.toList.length = row := by
  unfold atDepth
  split
  · next hempty => rw [hempty, List.drop_nil]
  · simp

theorem dropReturn_concat (row : List Char) : dropReturn (row ++ ['\r']) = row := by
  simp [dropReturn]

theorem dropReturn_eq_self_iff {row : List Char} :
    dropReturn row = row ↔ row.getLast? ≠ some '\r' := by
  unfold dropReturn
  split
  · next h =>
    obtain ⟨row, rfl⟩ := List.getLast?_eq_some_iff.1 h
    simp
  · next h => simp [h]

theorem length_atDepth_dropReturn (unit : String) {row : List Char} (h : dropReturn row ≠ row) :
    (atDepth unit 1 (dropReturn row)).length < (atDepth unit 1 row).length := by
  obtain ⟨row, rfl⟩ : ∃ init, row = init ++ ['\r'] := by
    by_contra hno
    exact h (dropReturn_eq_self_iff.2 fun hlast => hno (List.getLast?_eq_some_iff.1 hlast))
  rw [dropReturn_concat]
  unfold atDepth
  split <;> simp

theorem length_closeRows_dropReturns (unit : String) {rs : List (List Char)}
    (h : dropReturns rs ≠ rs) :
    (closeRows ((dropReturns rs).map (atDepth unit 1))).toList.length <
      (closeRows (rs.map (atDepth unit 1))).toList.length := by
  simp only [toList_closeRows]
  fun_induction dropReturns rs with
  | case1 => exact absurd rfl h
  | case2 row => exact absurd rfl h
  | case3 row rs hrs ih =>
    simp only [List.map_cons, List.flatMap_cons, List.length_append]
    by_cases hrow : dropReturn row = row
    · have hrest := ih fun heq => h (by rw [hrow, heq])
      rw [hrow]
      omega
    · have hshort := length_atDepth_dropReturn unit hrow
      by_cases heq : dropReturns rs = rs
      · rw [heq]
        omega
      · have hrest := ih heq
        omega

theorem dropReturns_splitOn_eq_self_iff {cs : List Char} :
    dropReturns (cs.splitOn '\n') = cs.splitOn '\n' ↔ ¬ ['\r', '\n'] <:+: cs := by
  induction cs with
  | nil => simp [dropReturns]
  | cons c cs ih =>
    obtain ⟨row, rs, hrows⟩ := List.exists_cons_of_ne_nil (List.splitOn_ne_nil '\n' cs)
    rw [List.infix_cons_iff, not_or, ← ih, List.cons_prefix_cons, feed_prefix_iff hrows,
      List.splitOn_cons_eq_if_modifyHead, hrows]
    split
    · next hc =>
      have hc : c = '\n' := by simpa using hc
      simp [dropReturns, dropReturn, hc]
    · rw [List.modifyHead_cons]
      cases rs with
      | nil => simp [dropReturns]
      | cons r rs =>
        rw [dropReturns_cons row (by simp), dropReturns_cons (c :: row) (by simp)]
        by_cases hreturn : row = [] → c ≠ '\r'
        · have hstart : ¬ ('\r' = c ∧ row = [] ∧ r :: rs ≠ []) := fun h => hreturn h.2.1 h.1.symm
          simp only [dropReturn_cons hreturn, List.cons.injEq, true_and, hstart, not_false_eq_true]
        · obtain ⟨rfl, rfl⟩ : row = [] ∧ c = '\r' := by simpa using hreturn
          simp [dropReturn]

theorem dropReturns_keptRows_eq_self_iff (text : String) :
    dropReturns (keptRows text) = keptRows text ↔ ¬ ['\r', '\n'] <:+: (dropFeeds text).toList := by
  unfold keptRows
  split
  · next hempty => simp [hempty, dropReturns]
  · exact dropReturns_splitOn_eq_self_iff

theorem indent_exact_iff (unit text : String) :
    closeRows (keptRows text) = (if dropFeeds text = "" then "" else dropFeeds text ++ "\n") ∧
      indent unit text = closeRows ((dropReturns (keptRows text)).map (atDepth unit 1)) ∧
      ((dropReturns (keptRows text)).map (atDepth unit 1)).map (List.drop unit.toList.length) =
        dropReturns (keptRows text) ∧
      (indent unit text = closeRows ((keptRows text).map (atDepth unit 1)) ↔
        ¬ ['\r', '\n'] <:+: (dropFeeds text).toList) := by
  have hindent := indent_eq_closeRows_keptRows unit text
  refine ⟨closeRows_keptRows text, hindent, ?_, ?_⟩
  · have hdrop : List.drop unit.toList.length ∘ atDepth unit 1 = id := funext (drop_atDepth unit)
    rw [List.map_map, hdrop, List.map_id]
  · rw [hindent, ← dropReturns_keptRows_eq_self_iff]
    constructor
    · intro heq
      by_contra hne
      have hshort := length_closeRows_dropReturns unit hne
      rw [heq] at hshort
      exact lt_irrefl _ hshort
    · intro heq
      rw [heq]

end Text

open Text

def literalReturns : String :=
  "s = '''a\r\n\r\nb'''"

def BlockGraph.returnsInBody : BlockGraph where
  blocks :=
    [{ Block.ofGenus "if" with
        id := .ofNat 1
        sockets := [Socket.any "test", (Socket.any "then").connect (.ofNat 2)] },
      { Block.ofGenus "pythonStatement" with id := .ofNat 2, label := some literalReturns },
      { Block.ofGenus "runOnce" with
        id := .ofNat 3
        sockets := [(Socket.any "do").connect (.ofNat 2)] }]
  named := by decide
  distinct := by decide

theorem Script.compile_returnsInBody :
    let compile := fun root =>
      Script.compile ⟨.ofGraph .returnsInBody, .standard, .standard⟩ (.ofNat root)
    compile 1 = ⟨"if True:\n\ts = '''a\n\n\tb'''\n", [], []⟩ ∧
      "if True:\n" ++ closeRows ((keptRows literalReturns).map (atDepth "\t" 1)) =
        "if True:\n\ts = '''a\r\n\t\r\n\tb'''\n" ∧
      compile 3 = ⟨literalReturns ++ "\n", [], []⟩ := by
  intro compile
  refine ⟨Session.compile_of_pass (n := 2) ?_, ?_, Session.compile_of_pass (n := 2) ?_⟩
  all_goals decide +kernel

end VisualProgram
