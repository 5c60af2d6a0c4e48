import VisualProgram.Proofs.CodeRows
import VisualProgram.Proofs.Layout

/-!
Comments in the lines that a reader of the script sees. For it a carriage return ends a line too, and a
label may hold one where no line feed follows. What stands behind it is a line of its own.
-/

namespace VisualProgram

namespace Text

/-- Lines that end at a line feed, at a carriage return, or at one before the other. -/
def physicalLines : List Char → List (List Char)
  | [] => [[]]
  | '\n' :: cs => [] :: physicalLines cs
  | '\r' :: '\n' :: cs => [] :: physicalLines cs
  | '\r' :: cs => [] :: physicalLines cs
  | c :: cs => (physicalLines cs).modifyHead (c :: ·)

theorem splitOn_append_of_notMem {x : Char} {front : List Char} (h : x ∉ front) (cs : List Char) :
    (front ++ cs).splitOn x = (cs.splitOn x).modifyHead (front ++ ·) := by
  induction front with
  | nil =>
    rw [List.nil_append]
    exact (congrFun List.modifyHead_id (cs.splitOn x)).symm
  | cons c front ih =>
    rw [List.mem_cons, not_or] at h
    rw [List.cons_append, List.splitOn_cons_eq_if_modifyHead, ih h.2,
      if_neg (by simpa using fun hc => h.1 hc.symm), List.modifyHead_modifyHead]
    rfl

theorem dropReturns_cons_char {c : Char} {row : List Char} {rs : List (List Char)}
    (h : row = [] → rs ≠ [] → c ≠ '\r') :
    dropReturns ((c :: row) :: rs) = (dropReturns (row :: rs)).modifyHead (c :: ·) := by
  cases rs with
  | nil => rfl
  | cons r rs =>
    have hne : r :: rs ≠ [] := by simp
    rw [dropReturns_cons (c :: row) hne, dropReturns_cons row hne,
      dropReturn_cons fun hrow => h hrow hne]
    rfl

theorem flatMap_splitOn_modifyHead {c : Char} (hc : c ≠ '\r') {rs : List (List Char)} (h : rs ≠ []) :
    (rs.modifyHead (c :: ·)).flatMap (List.splitOn '\r') =
      (rs.flatMap (List.splitOn '\r')).modifyHead (c :: ·) := by
  obtain ⟨row, rs, rfl⟩ := List.exists_cons_of_ne_nil h
  obtain ⟨l, ls, hrow⟩ := List.exists_cons_of_ne_nil (List.splitOn_ne_nil '\r' row)
  simp [List.splitOn_cons_eq_if_modifyHead, hc, hrow]

theorem physicalLines_eq (cs : List Char) :
    physicalLines cs = (dropReturns (cs.splitOn '\n')).flatMap (List.splitOn '\r') := by
  fun_induction physicalLines cs with
  | case1 => rfl
  | case2 cs ih =>
    have hrows : ('\n' :: cs).splitOn '\n' = [] :: cs.splitOn '\n' := by
      simp [List.splitOn_cons_eq_if_modifyHead]
    rw [ih, hrows, dropReturns_cons _ (List.splitOn_ne_nil _ _)]
    rfl
  | case3 cs ih =>
    have hrows : ('\r' :: '\n' :: cs).splitOn '\n' = ['\r'] :: cs.splitOn '\n' := by
      simp [List.splitOn_cons_eq_if_modifyHead]
    rw [ih, hrows, dropReturns_cons _ (List.splitOn_ne_nil _ _)]
    rfl
  | case4 cs hfeed ih =>
    obtain ⟨row, rs, hrows⟩ := List.exists_cons_of_ne_nil (List.splitOn_ne_nil '\n' cs)
    have hreturn : ('\r' :: cs).splitOn '\n' = ('\r' :: row) :: rs := by
      rw [List.splitOn_cons_eq_if_modifyHead, if_neg (by decide), hrows]
      rfl
    -- an empty row before others means a line feed, and that case has gone before
    have hrow : row = [] → rs ≠ [] → False := by
      intro hnil hrs
      obtain ⟨cs', rfl⟩ := (feed_prefix_iff hrows).2 ⟨hnil, hrs⟩
      exact hfeed cs' rfl
    rw [ih, hreturn, hrows, dropReturns_cons_char fun hnil hrs => (hrow hnil hrs).elim]
    obtain ⟨l, ls, hlines⟩ := List.exists_cons_of_ne_nil
      (dropReturns_ne_nil (List.cons_ne_nil row rs))
    rw [hlines]
    simp [List.splitOn_cons_eq_if_modifyHead]
  | case5 c cs hfeed _ hreturn ih =>
    obtain ⟨row, rs, hrows⟩ := List.exists_cons_of_ne_nil (List.splitOn_ne_nil '\n' cs)
    have hc : c ≠ '\r' := fun h => hreturn h
    have hcons : (c :: cs).splitOn '\n' = (c :: row) :: rs := by
      rw [List.splitOn_cons_eq_if_modifyHead, if_neg (by simpa using hfeed), hrows]
      rfl
    rw [ih, hcons, hrows, dropReturns_cons_char fun _ _ => hc,
      flatMap_splitOn_modifyHead hc (dropReturns_ne_nil (List.cons_ne_nil row rs))]

theorem rows_intercalate {ts : List String} (h : ts ≠ []) :
    rows (String.intercalate "\n" ts) = ts.flatMap rows := by
  induction ts with
  | nil => exact absurd rfl h
  | cons t ts ih =>
    cases ts with
    | nil => simp
    | cons u us =>
      rw [String.intercalate_cons_cons, rows_append_feed, ih (by simp)]
      rfl

theorem rows_leadLines {text : String} (h : lines text.toList ≠ []) :
    rows (leadLines "# " text) = (lines text.toList).map ("# ".toList ++ ·) := by
  have hrow : ∀ l ∈ lines text.toList, rows ("# " ++ String.ofList l) = ["# ".toList ++ l] := by
    intro l hl
    have hfeed : '\n' ∉ "# ".toList ++ l := by simpa using feed_notMem_of_mem_lines hl
    have htext : ("# " ++ String.ofList l).toList = "# ".toList ++ l := by simp
    rw [rows, htext]
    exact List.splitOn_eq_singleton hfeed
  rw [leadLines, rows_intercalate (by simpa using h), List.flatMap_map, List.flatMap_congr hrow,
    List.map_eq_flatMap]

theorem forall₂_dropReturns (rs : List (List Char)) :
    List.Forall₂ (fun r r' => r' = r ∨ r' = dropReturn r) rs (dropReturns rs) := by
  fun_induction dropReturns rs with
  | case1 => exact .nil
  | case2 row => exact .cons (.inl rfl) .nil
  | case3 row rs _ ih => exact .cons (.inr rfl) ih

/-- A line of a label as it stands so many bodies deep. The way there may have taken carriage returns
off its end. -/
def CommentRow (unit : String) (n : Nat) (l row : List Char) : Prop :=
  ∃ kept k, l = kept ++ List.replicate k '\r' ∧
    row = (List.replicate n unit.toList).flatten ++ "# ".toList ++ kept

def Carries (unit : String) (n : Nat) (ls rs : List (List Char)) : Prop :=
  ∃ ps, ps <:+: rs ∧ List.Forall₂ (CommentRow unit n) ls ps

section

variable {unit : String} {n : Nat} {l row : List Char} {ls rs ss : List (List Char)}

theorem CommentRow.ne_nil (h : CommentRow unit n l row) : row ≠ [] := by
  obtain ⟨kept, k, -, rfl⟩ := h
  simp

theorem CommentRow.dropReturn (h : CommentRow unit n l row) :
    CommentRow unit n l (dropReturn row) := by
  obtain ⟨kept, k, rfl, rfl⟩ := h
  obtain rfl | ⟨init, x, rfl⟩ := List.eq_nil_or_concat' kept
  · refine ⟨[], k, rfl, dropReturn_eq_self_iff.2 ?_⟩
    simp
  · by_cases hx : x = '\r'
    · subst hx
      refine ⟨init, k + 1, ?_, ?_⟩
      · rw [List.replicate_succ, List.append_assoc]
        rfl
      · rw [← List.append_assoc, dropReturn_concat]
    · refine ⟨init ++ [x], k, rfl, dropReturn_eq_self_iff.2 ?_⟩
      simpa [← List.append_assoc] using hx

theorem CommentRow.deeper (h : CommentRow unit n l row) :
    CommentRow unit (n + 1) l (atDepth unit 1 row) := by
  have hne := h.ne_nil
  obtain ⟨kept, k, rfl, rfl⟩ := h
  refine ⟨kept, k, rfl, ?_⟩
  rw [atDepth, if_neg hne]
  simp [List.replicate_succ]

theorem Carries.mono (h : Carries unit n ls rs) (hs : rs <:+: ss) : Carries unit n ls ss := by
  obtain ⟨ps, hps, hrows⟩ := h
  exact ⟨ps, hps.trans hs, hrows⟩

theorem Carries.deeper (h : Carries unit n ls rs) :
    Carries unit (n + 1) ls (rs.map (atDepth unit 1)) := by
  obtain ⟨ps, hps, hrows⟩ := h
  refine ⟨ps.map (atDepth unit 1), hps.map _, List.forall₂_map_right_iff.2 ?_⟩
  exact hrows.imp fun _ _ => CommentRow.deeper

theorem Carries.dropReturns (h : Carries unit n ls rs) : Carries unit n ls (dropReturns rs) := by
  obtain ⟨ps, ⟨before, after, rfl⟩, hrows⟩ := h
  have hstep := List.forall₂_take ps.length
    (List.forall₂_drop before.length (forall₂_dropReturns (before ++ ps ++ after)))
  rw [List.append_assoc, List.drop_left, List.take_left, ← List.append_assoc] at hstep
  have hinfix := (List.take_prefix ps.length _).isInfix.trans
    (List.drop_suffix before.length (Text.dropReturns (before ++ ps ++ after))).isInfix
  refine ⟨_, hinfix, ?_⟩
  generalize List.take ps.length _ = ps' at hstep
  clear hinfix
  induction hrows generalizing ps' with
  | nil =>
    cases hstep
    exact .nil
  | cons hrow _ ih =>
    cases hstep with
    | cons hdrop hstep =>
      rcases hdrop with rfl | rfl
      · exact .cons hrow (ih _ hstep)
      · exact .cons hrow.dropReturn (ih _ hstep)

theorem exists_of_mem_right {α β : Type} {R : α → β → Prop} {as : List α} {bs : List β} {b : β}
    (h : List.Forall₂ R as bs) (hb : b ∈ bs) : ∃ a ∈ as, R a b := by
  induction h with
  | nil => cases hb
  | cons hab _ ih =>
    rcases List.mem_cons.1 hb with rfl | hb
    · exact ⟨_, List.mem_cons_self, hab⟩
    · obtain ⟨a, ha, hab⟩ := ih hb
      exact ⟨a, List.mem_cons_of_mem _ ha, hab⟩

theorem Carries.dropFeeds {text : String} (h : Carries unit n ls (rows text)) :
    Carries unit n ls (rows (dropFeeds text)) := by
  obtain ⟨ps, hps, hrows⟩ := h
  obtain rfl | ⟨init, row, rfl⟩ := List.eq_nil_or_concat' ps
  · exact ⟨[], List.nil_infix, hrows⟩
  · obtain ⟨l, -, hrow⟩ :=
      exists_of_mem_right hrows (List.mem_append_right _ (List.mem_singleton_self row))
    exact ⟨_, infix_rows_dropFeeds ⟨init, row, rfl, hrow.ne_nil⟩ hps, hrows⟩

theorem carries_leadLines (unit text : String) :
    Carries unit 0 (lines text.toList) (rows (leadLines "# " text)) := by
  by_cases h : lines text.toList = []
  · rw [h]
    exact ⟨[], List.nil_infix, .nil⟩
  · rw [rows_leadLines h]
    refine ⟨_, List.infix_rfl, List.forall₂_map_right_iff.2 (List.forall₂_same.2 fun l _ => ?_)⟩
    exact ⟨l, 0, by simp, by simp⟩

theorem Carries.not_blank {text : String} (h : Carries unit n ls (rows text)) (hls : ls ≠ []) :
    blankText text = false := by
  obtain ⟨ps, hps, hrows⟩ := h
  obtain ⟨l, ls, rfl⟩ := List.exists_cons_of_ne_nil hls
  cases hrows with
  | @cons _ row _ ps hrow _ =>
    obtain ⟨kept, k, -, rfl⟩ := hrow
    have hmark : '#' ∈ text.toList := by
      rw [← intercalate_rows]
      refine (infix_intercalate (hps.subset List.mem_cons_self)).subset ?_
      simp
    simpa [blankText] using ⟨'#', hmark, by decide⟩

end

theorem splitOn_append_replicate {x : Char} (cs : List Char) (k : Nat) :
    (cs ++ List.replicate k x).splitOn x = cs.splitOn x ++ List.replicate k [] := by
  induction k with
  | zero => simp
  | succ k ih =>
    rw [List.replicate_succ', List.replicate_succ', ← List.append_assoc,
      List.splitOn_append_cons_self, ih, List.splitOn_nil, List.append_assoc]

/-- The physical lines of a line of a label. What stands before its first carriage return is behind the
mark; every further piece is a line of its own, up to some empty ones at the end. -/
def CommentLines (unit : String) (n : Nat) (l : List Char) (group : List (List Char)) : Prop :=
  ∃ first rest k, l.splitOn '\r' = first :: (rest ++ List.replicate k []) ∧
    group = ((List.replicate n unit.toList).flatten ++ "# ".toList ++ first) :: rest

section

variable {unit : String} {n : Nat} {l row : List Char} {group : List (List Char)}
  {ls : List (List Char)} {groups : List (List (List Char))}

theorem CommentRow.lines (hreturn : Lacks '\r' unit) (h : CommentRow unit n l row) :
    CommentLines unit n l (row.splitOn '\r') := by
  obtain ⟨kept, k, rfl, rfl⟩ := h
  obtain ⟨first, rest, hkept⟩ := List.exists_cons_of_ne_nil (List.splitOn_ne_nil '\r' kept)
  have hlead : '\r' ∉ (List.replicate n unit.toList).flatten ++ "# ".toList := by
    have hunits : '\r' ∉ (List.replicate n unit.toList).flatten := by
      simpa using fun _ => show '\r' ∉ unit.toList from hreturn
    rw [List.mem_append, not_or]
    exact ⟨hunits, by decide⟩
  refine ⟨first, rest, k, ?_, ?_⟩
  · rw [splitOn_append_replicate, hkept]
    rfl
  · rw [splitOn_append_of_notMem hlead, hkept]
    rfl

theorem CommentLines.isCode (hunit : ∀ x ∈ unit.toList, isBlank x = true)
    (h : CommentLines unit n l group) :
    (∃ line ∈ group, IsCode line) ↔ ∃ piece ∈ (l.splitOn '\r').tail, IsCode piece := by
  obtain ⟨first, rest, k, hl, rfl⟩ := h
  have hunits : ∀ x ∈ (List.replicate n unit.toList).flatten, isBlank x = true := by
    simpa using fun x _ hx => hunit x hx
  have hmark : ¬IsCode ("# ".toList ++ first) := by
    rintro ⟨x, hx, hne⟩
    exact hne (Option.some.inj hx).symm
  rw [hl, List.exists_mem_cons_iff, List.append_assoc, isCode_append_of_blank hunits,
    or_iff_right hmark, List.tail_cons]
  simp [or_and_right, exists_or, not_isCode_nil]

theorem CommentLines.eq_singleton (hl : '\r' ∉ l) (h : CommentLines unit n l group) :
    group = [(List.replicate n unit.toList).flatten ++ "# ".toList ++ l] := by
  obtain ⟨first, rest, k, hsplit, rfl⟩ := h
  rw [List.splitOn_eq_singleton hl] at hsplit
  obtain ⟨rfl, hrest⟩ := List.cons.inj hsplit
  rw [(List.append_eq_nil_iff.1 hrest.symm).1]

theorem isCode_flatten (hunit : ∀ x ∈ unit.toList, isBlank x = true)
    (h : List.Forall₂ (CommentLines unit n) ls groups) :
    (∃ line ∈ groups.flatten, IsCode line) ↔
      ∃ l ∈ ls, ∃ piece ∈ (l.splitOn '\r').tail, IsCode piece := by
  induction h with
  | nil => simp
  | cons hl _ ih =>
    rw [List.flatten_cons, List.exists_mem_cons_iff, ← hl.isCode hunit, ← ih]
    simp only [List.mem_append, or_and_right, exists_or]

theorem flatten_eq_map (hls : ∀ l ∈ ls, '\r' ∉ l)
    (h : List.Forall₂ (CommentLines unit n) ls groups) : groups.flatten =
      ls.map fun l => (List.replicate n unit.toList).flatten ++ "# ".toList ++ l := by
  induction h with
  | nil => rfl
  | cons hl _ ih =>
    rw [List.flatten_cons, List.map_cons, hl.eq_singleton (hls _ List.mem_cons_self),
      ih fun l hl => hls l (List.mem_cons_of_mem _ hl)]
    rfl

end

theorem feed_notMem_innerRows {unit : String} (hunit : Lacks '\n' unit) (statements : List String) :
    ∀ r ∈ innerRows unit statements, '\n' ∉ r := by
  apply feed_notMem_stackedRows hunit
  intro t r hr
  obtain ⟨kept, hkept, rfl⟩ := List.mem_map.1 hr
  obtain ⟨row, hrow, hsub⟩ := mem_dropReturns hkept
  exact feed_notMem_atDepth hunit fun hfeed => feed_notMem_of_mem_splitOn hrow (hsub hfeed)

theorem infix_innerRows {unit t : String} {statements : List String} (ht : t ∈ statements)
    (hblank : blankText t = false) :
    (dropReturns (rows (dropFeeds t))).map (atDepth unit 1) <:+: innerRows unit statements :=
  infix_stackedRows (f := fun t => (dropReturns (rows (dropFeeds t))).map (atDepth unit 1)) ht hblank

end Text

open Text

namespace Context

variable {c : Context}

theorem carries_of_within (hreg : c.registry = .standard) (hfeed : Lacks '\n' c.options.indent)
    {n : Nat} {path path' : Trail} {b d : Block} (h : c.Within n path b path' d) {label : String}
    (htext : (c.compileBlock path' d).value = leadLines "# " label) :
    Carries c.options.indent n (lines label.toList) (rows (c.compileBlock path b).value) := by
  by_cases hls : lines label.toList = []
  · rw [hls]
    exact ⟨[], List.nil_infix, .nil⟩
  induction h with
  | self =>
    rw [htext]
    exact carries_leadLines _ label
  | level a hgenus hfirst hpart _ ih =>
    have hinner := ih htext
    have hmem := a.mem_statements hfirst hpart
    rw [a.text_of_level hreg hgenus]
    exact hinner.dropFeeds.mono (infix_rows_level hmem (hinner.not_blank hls))
  | @body a n i parts header tail first d e path' hheaded hpart hfirst hchain _ ih =>
    have hinner := ih htext
    have hmem := a.mem_statements hfirst hchain
    obtain ⟨before, after, -, hbody⟩ := a.text_of_part hreg hheaded hpart
    rw [hbody]
    have hlaid := hinner.dropFeeds.dropReturns.deeper.mono
      (infix_innerRows hmem (hinner.not_blank hls))
    exact hlaid.mono (infix_rows_closeRows (feed_notMem_innerRows hfeed _) before header after)

theorem comment_lines (hreg : c.registry = .standard) (hfeed : Lacks '\n' c.options.indent)
    (hreturn : Lacks '\r' c.options.indent) {n : Nat} {path : Trail} {b : Block} {e : Application c}
    (hcomment : e.block.genus = "comment") (h : c.Within n path b e.path e.block) :
    let unit := c.options.indent
    let ls := lines (e.block.label.getD "").toList
    ∃ groups, groups.flatten <:+: physicalLines (c.compileBlock path b).value.toList ∧
      List.Forall₂ (CommentLines unit n) ls groups ∧
      ((∀ x ∈ unit.toList, isBlank x = true) → ((∃ line ∈ groups.flatten, IsCode line) ↔
        ∃ l ∈ ls, ∃ piece ∈ (l.splitOn '\r').tail, IsCode piece)) ∧
      ((∀ l ∈ ls, '\r' ∉ l) → groups.flatten =
        ls.map fun l => (List.replicate n unit.toList).flatten ++ "# ".toList ++ l) := by
  intro unit ls
  have hr : e.rule = .handler .comment := e.rule_of_genus (by rw [hreg, hcomment]; rfl)
  have htext : (c.compileBlock e.path e.block).value = leadLines "# " (e.block.label.getD "") := by
    rw [e.compileBlock_value, hr]
    rfl
  obtain ⟨ps, hps, hrows⟩ := (carries_of_within hreg hfeed h htext).dropReturns
  have hgroups : List.Forall₂ (CommentLines unit n) ls (ps.map (List.splitOn '\r')) :=
    List.forall₂_map_right_iff.2 (hrows.imp fun _ _ hrow => hrow.lines hreturn)
  refine ⟨_, ?_, hgroups, fun hunit => isCode_flatten hunit hgroups, fun hls =>
    flatten_eq_map hls hgroups⟩
  obtain ⟨before, after, hsplit⟩ := hps
  rw [physicalLines_eq, ← rows, ← hsplit, List.flatMap_append, List.flatMap_append]
  exact ⟨_, _, rfl⟩

end Context

namespace Block

def remarkedTest : Block :=
  { ofGenus "if" with
    id := .ofNat 1
    sockets := [Socket.any "test", (Socket.any "then").connect (.ofNat 2)] }

def returningRemark : Block :=
  { ofGenus "comment" with id := .ofNat 2, label := some "a\rbreak" }

end Block

def BlockGraph.returnInComment : BlockGraph where
  blocks := [.remarkedTest, .returningRemark]
  named := by decide
  distinct := by decide

theorem Context.comment_lines_returnInComment :
    let c : Context := ⟨.ofGraph .returnInComment, .standard, .standard⟩
    ∃ groups : List (List (List Char)),
      groups.flatten <:+: physicalLines (c.compileBlock .empty .remarkedTest).value.toList ∧
        ∃ line ∈ groups.flatten, IsCode line := by
  intro c
  let a : Application c :=
    ⟨.empty, .remarkedTest, .handler .conditional, Trail.notMem_empty _, rfl⟩
  let e : Application c := ⟨a.inner, .returningRemark, .handler .comment, by decide, rfl⟩
  have hfirst : c.ChainPart .empty .returningRemark .returningRemark :=
    (chainPart_iff (Trail.notMem_empty _) (by decide)).2 (.inl rfl)
  have hwithin : c.Within 1 .empty .remarkedTest e.path e.block :=
    .body a (.conditional rfl) (List.mem_singleton_self _) rfl hfirst .self
  obtain ⟨groups, hinfix, -, hcode, -⟩ :=
    comment_lines (c := c) rfl (by decide) (by decide) rfl hwithin
  have hunit : ∀ x ∈ c.options.indent.toList, x = ' ' ∨ x = '\t' :=
    show ∀ x ∈ "\t".toList, x = ' ' ∨ x = '\t' by simp
  exact ⟨groups, hinfix, (hcode (isBlank_of_unit hunit)).2 (by decide +kernel)⟩

theorem Script.compile_returnInComment :
    let source := "if True:\n\t# a\rbreak\n"
    compile ⟨.ofGraph .returnInComment, .standard, .standard⟩ (.ofNat 1) = ⟨source, [], []⟩ ∧
      physicalLines source.toList =
        ["if True:".toList, "\t# a".toList, "break".toList, []] ∧ IsCode "break".toList := by
  refine ⟨Session.compile_of_pass (n := 2) ?_, ?_, ?_⟩
  all_goals decide +kernel

end VisualProgram
