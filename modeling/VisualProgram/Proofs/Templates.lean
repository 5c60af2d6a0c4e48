import Mathlib.Data.List.TakeWhile
import VisualProgram.Text.Template

/-!
Templates filled in one pass. A template splits into plain characters and holes in only one way. Going
through it from hole to hole, with a source of values that may change with every question, asks once
for each hole that has a position, from left to right, and gives the pieces with the answers in their
places.
-/

namespace VisualProgram.Template

open Text

/-- No plain character is a `$`, and a hole takes all the digits behind its `$`. -/
inductive Splits : List Char → List Piece → Prop
  | nil : Splits [] []
  | char {c : Char} {cs : List Char} {ps : List Piece} : c ≠ '$' → Splits cs ps →
      Splits (c :: cs) (.char c :: ps)
  | hole {digits cs : List Char} {ps : List Piece} : (∀ d ∈ digits, d.isDigit = true) →
      (∀ d, cs.head? = some d → d.isDigit = false) → Splits cs ps →
      Splits ('$' :: digits ++ cs) (.hole digits :: ps)

theorem pieces_cons {c : Char} (h : c ≠ '$') (cs : List Char) :
    pieces (c :: cs) = .char c :: pieces cs := by
  rw [pieces]
  exact h

theorem pieces_append {lead : List Char} (h : ∀ c ∈ lead, c ≠ '$') (cs : List Char) :
    pieces (lead ++ cs) = lead.map .char ++ pieces cs := by
  induction lead with
  | nil => rfl
  | cons c lead ih =>
    have hlead := ih fun d hd => h d (List.mem_cons_of_mem _ hd)
    rw [List.cons_append, pieces_cons (h c List.mem_cons_self), hlead]
    rfl

theorem splits_pieces (cs : List Char) : Splits cs (pieces cs) := by
  fun_induction pieces cs with
  | case1 => exact .nil
  | case2 cs ih =>
    have hcs : '$' :: cs = '$' :: cs.takeWhile Char.isDigit ++ cs.dropWhile Char.isDigit := by
      rw [List.cons_append, List.takeWhile_append_dropWhile]
    rw [hcs]
    refine .hole (fun d hd => List.mem_takeWhile_imp hd) (fun d hd => ?_) ih
    simpa [hd] using List.head?_dropWhile_not Char.isDigit cs
  | case3 c cs hc ih => exact .char hc ih

theorem Splits.eq_pieces {cs : List Char} {ps : List Piece} (h : Splits cs ps) : ps = pieces cs := by
  induction h with
  | nil => rw [pieces]
  | char hc _ ih => rw [pieces_cons hc, ih]
  | @hole digits cs ps hdigits hnext _ ih =>
    have hrest : cs.takeWhile Char.isDigit = [] ∧ cs.dropWhile Char.isDigit = cs := by
      cases cs with
      | nil => exact ⟨rfl, rfl⟩
      | cons d cs => simp [hnext d rfl]
    rw [List.cons_append, pieces, List.takeWhile_append_of_pos hdigits,
      List.dropWhile_append_of_pos hdigits, hrest.1, hrest.2, List.append_nil, ih]

theorem Splits.append {cs ds : List Char} {ps qs : List Piece} (h : Splits cs ps)
    (hds : Splits ds qs) (hnext : ∀ d, ds.head? = some d → d.isDigit = false) :
    Splits (cs ++ ds) (ps ++ qs) := by
  induction h with
  | nil => exact hds
  | char hc _ ih => exact .char hc ih
  | @hole digits cs ps hdigits hhead _ ih =>
    rw [List.append_assoc, List.cons_append]
    refine .hole hdigits (fun d hd => ?_) ih
    cases cs with
    | nil => exact hnext d hd
    | cons c cs => exact hhead d hd

theorem substitute_append_feed (s t : String) (value : Nat → Option String) :
    substitute (s ++ "\n" ++ t) value = substitute s value ++ "\n" ++ substitute t value := by
  have hrest : Splits ('\n' :: t.toList) (.char '\n' :: pieces t.toList) :=
    .char (by decide) (splits_pieces _)
  have hsplit := (splits_pieces s.toList).append hrest (by simp)
  have hchars : (s ++ "\n" ++ t).toList = s.toList ++ '\n' :: t.toList := by simp
  rw [← String.toList_inj, substitute, hchars, ← hsplit.eq_pieces]
  simp [substitute, Piece.fill, Piece.position?, Piece.chars]

def number? (digits : List Char) : Option Nat :=
  if digits = [] then none
  else digits.foldlM (fun n c =>
    if 10 * n + digitValue c < UInt64.size then some (10 * n + digitValue c) else none) 0

theorem le_foldl_digits (digits : List Char) (n : Nat) :
    n ≤ digits.foldl (fun n c => 10 * n + digitValue c) n := by
  induction digits generalizing n with
  | nil => exact Nat.le_refl n
  | cons c digits ih =>
    have hstep : n ≤ 10 * n + digitValue c := by omega
    exact Nat.le_trans hstep (ih _)

theorem number?_eq (digits : List Char) : number? digits =
    if digits ≠ [] ∧ digitsValue digits < UInt64.size then some (digitsValue digits) else none := by
  have hfold (n : Nat) (hn : n < UInt64.size) : digits.foldlM (fun n c =>
      if 10 * n + digitValue c < UInt64.size then some (10 * n + digitValue c) else none) n =
        let m := digits.foldl (fun n c => 10 * n + digitValue c) n
        if m < UInt64.size then some m else none := by
    induction digits generalizing n with
    | nil => simp [hn]
    | cons c digits ih =>
      rw [List.foldlM_cons, List.foldl_cons]
      by_cases hm : 10 * n + digitValue c < UInt64.size
      · rw [if_pos hm]
        exact ih _ hm
      · have hle := le_foldl_digits digits (10 * n + digitValue c)
        have hlarge : ¬digits.foldl (fun n c => 10 * n + digitValue c) (10 * n + digitValue c) <
            UInt64.size := by omega
        rw [if_neg hm]
        exact (if_neg hlarge).symm
  unfold number?
  by_cases hempty : digits = []
  · simp [hempty]
  · rw [if_neg hempty, hfold 0 (by decide)]
    simp [hempty, digitsValue]

theorem Piece.position?_hole (digits : List Char) :
    (hole digits).position? = ((number? digits).filter (1 ≤ ·)).map (· - 1) := by
  rw [number?_eq, Piece.position?]
  by_cases hempty : digits = []
  · simp [hempty]
  by_cases hsmall : digitsValue digits < UInt64.size
  · by_cases hone : 1 ≤ digitsValue digits <;> simp [hempty, hsmall, hone, Option.filter]
  · simp [hsmall]

section

variable {σ : Type}

def answer (ask : Nat → StateM σ (Option String)) (digits : List Char) : StateM σ (Option String) :=
  match (number? digits).filter (1 ≤ ·) with
  | some n => ask (n - 1)
  | none => return none

def scan (ask : Nat → StateM σ (Option String)) (written rest : List Char) : StateM σ (List Char) :=
  match _h : rest.dropWhile (· ≠ '$') with
  | [] => return written ++ rest
  | _dollar :: after => do
    let digits := after.takeWhile Char.isDigit
    let text := ((← answer ask digits).map String.toList).getD ('$' :: digits)
    scan ask (written ++ rest.takeWhile (· ≠ '$') ++ text) (after.drop digits.length)
termination_by rest.length
decreasing_by
  have hlength := congrArg List.length (List.takeWhile_append_dropWhile (p := (· ≠ '$')) (l := rest))
  rw [_h, List.length_append, List.length_cons] at hlength
  rw [List.length_drop]
  omega

def Piece.answer (ask : Nat → StateM σ (Option String)) (piece : Piece) : StateM σ (List Char) :=
  match piece.position? with
  | some i => do return ((← ask i).map String.toList).getD piece.chars
  | none => return piece.chars

def recorded (ask : Nat → StateM σ (Option String)) (i : Nat) :
    StateM (σ × List Nat) (Option String) :=
  fun s => ((ask i s.1).1, (ask i s.1).2, s.2 ++ [i])

theorem answer_hole (ask : Nat → StateM σ (Option String)) (digits : List Char) :
    (Piece.hole digits).answer ask =
      (fun value => (value.map String.toList).getD ('$' :: digits)) <$> answer ask digits := by
  rw [Piece.answer, Piece.position?_hole, Template.answer]
  cases (number? digits).filter (1 ≤ ·) <;> rfl

theorem mapM_answer_char (ask : Nat → StateM σ (Option String)) (cs : List Char) :
    (cs.map Piece.char).mapM (Piece.answer ask) = pure (cs.map fun c => [c]) := by
  rw [List.mapM_map]
  exact List.mapM_pure

theorem pieces_of_lead {rest tail : List Char} (h : rest.dropWhile (· ≠ '$') = tail) :
    pieces rest = (rest.takeWhile (· ≠ '$')).map .char ++ pieces tail := by
  have hlead : ∀ c ∈ rest.takeWhile (· ≠ '$'), c ≠ '$' := by
    intro c hc
    simpa using List.mem_takeWhile_imp hc
  rw [← pieces_append hlead, ← h, List.takeWhile_append_dropWhile]

theorem scan_eq_mapM (ask : Nat → StateM σ (Option String)) (written rest : List Char) :
    scan ask written rest =
      (fun parts => written ++ parts.flatten) <$> (pieces rest).mapM (Piece.answer ask) := by
  have hflatten (cs : List Char) : (cs.map fun c => [c]).flatten = cs := by
    rw [← List.flatMap_def, List.flatMap_singleton']
  -- from one `$` to the next: the characters before it are kept, and the hole behind it is asked for
  fun_induction scan ask written rest with
  | case1 written rest h =>
    have hall : rest.takeWhile (· ≠ '$') = rest := by
      rw [← List.append_nil (rest.takeWhile _), ← h, List.takeWhile_append_dropWhile]
    rw [pieces_of_lead h, hall, pieces, List.append_nil, mapM_answer_char, map_pure, hflatten]
  | case2 written rest c after h digits ih =>
    obtain rfl : c = '$' := by
      have hhead := List.head?_dropWhile_not (· ≠ '$') rest
      rw [h] at hhead
      simpa using hhead
    have hdrop : after.drop digits.length = after.dropWhile Char.isDigit := by
      have hafter : digits ++ after.dropWhile Char.isDigit = after :=
        List.takeWhile_append_dropWhile
      have hleft : (digits ++ after.dropWhile Char.isDigit).drop digits.length =
          after.dropWhile Char.isDigit := List.drop_left
      rwa [hafter] at hleft
    rw [pieces_of_lead h, pieces, List.mapM_append, mapM_answer_char, List.mapM_cons, answer_hole,
      ← hdrop]
    simp only [List.append_assoc] at ih
    simp only [ih, pure_bind, map_bind, bind_map_left, bind_pure_comp, Functor.map_map,
      List.flatten_append, List.flatten_cons, hflatten, List.append_assoc]
    rfl

theorem answer_recorded (ask : Nat → StateM σ (Option String)) (p : Piece) (s : σ)
    (calls : List Nat) : (p.answer (recorded ask)).run (s, calls) =
      (((p.answer ask).run s).1, ((p.answer ask).run s).2, calls ++ p.position?.toList) := by
  rw [Piece.answer, Piece.answer]
  cases p.position? with
  | none =>
    rw [Option.toList_none, List.append_nil]
    rfl
  | some i => rfl

theorem mapM_recorded (ask : Nat → StateM σ (Option String)) (ps : List Piece) (s : σ)
    (calls : List Nat) :
    let result := (ps.mapM (Piece.answer ask)).run s
    (ps.mapM (Piece.answer (recorded ask))).run (s, calls) =
      (result.1, result.2, calls ++ ps.filterMap Piece.position?) := by
  intro result
  induction ps generalizing s calls with
  | nil =>
    rw [List.filterMap_nil, List.append_nil]
    rfl
  | cons p ps ih =>
    have hcalls : (p :: ps).filterMap Piece.position? =
        p.position?.toList ++ ps.filterMap Piece.position? := by
      cases h : p.position? <;> simp [h]
    have hfirst := answer_recorded ask p s calls
    have hrest := ih ((p.answer ask).run s).2 (calls ++ p.position?.toList)
    simp only [List.mapM_cons, StateT.run_bind, result] at hfirst hrest ⊢
    rw [hfirst, hcalls, ← List.append_assoc]
    exact congrArg (fun r => (_ :: r.1, r.2.1, r.2.2)) hrest

theorem mapM_answer_pure (value : Nat → Option String) (ps : List Piece) :
    ps.mapM (Piece.answer fun i => (pure (value i) : StateM σ (Option String))) =
      pure (ps.map (Piece.fill value)) := by
  have hanswer (p : Piece) :
      p.answer (fun i => (pure (value i) : StateM σ (Option String))) = pure (p.fill value) := by
    rw [Piece.answer, Piece.fill]
    cases p.position? with
    | none => rfl
    | some i => cases h : value i <;> simp [h]
  rw [funext hanswer]
  exact List.mapM_pure

end

theorem substitute_onePass (template : String) :
    ∃ ps, (∀ qs, Splits template.toList qs ↔ qs = ps) ∧
      positions template = ps.filterMap Piece.position? ∧
      (∀ value : Nat → Option String,
        substitute template value = String.ofList (ps.flatMap (Piece.fill value)) ∧
        ∀ (σ : Type) (s : σ), (scan (fun i => pure (value i)) [] template.toList).run s =
          ((substitute template value).toList, s)) ∧
      ∀ (σ : Type) (ask : Nat → StateM σ (Option String)) (s : σ),
        let result := (scan ask [] template.toList).run s
        result = (List.flatten <$> ps.mapM (Piece.answer ask)).run s ∧
          (scan (recorded ask) [] template.toList).run (s, []) =
            (result.1, result.2, positions template) := by
  refine ⟨pieces template.toList, fun qs => ?_, rfl, fun value => ⟨rfl, fun σ s => ?_⟩,
    fun σ ask s => ?_⟩
  · constructor
    · exact Splits.eq_pieces
    · rintro rfl
      exact splits_pieces template.toList
  · rw [scan_eq_mapM, mapM_answer_pure, substitute, String.toList_ofList, List.flatMap_def]
    rfl
  · rw [scan_eq_mapM, scan_eq_mapM]
    refine ⟨rfl, ?_⟩
    rw [StateT.run_map, mapM_recorded]
    rfl

end VisualProgram.Template
