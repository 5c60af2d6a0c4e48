import VisualProgram.Proofs.Applications

namespace VisualProgram

namespace Text

def Lacks (x : Char) (text : String) : Prop :=
  x ∉ text.toList

instance (x : Char) (text : String) : Decidable (Lacks x text) :=
  inferInstanceAs (Decidable (x ∉ text.toList))

variable {x : Char} {s t : String} {ts : List String}

@[simp]
theorem lacks_append : Lacks x (s ++ t) ↔ Lacks x s ∧ Lacks x t := by
  simp [Lacks]

@[simp]
theorem lacks_empty : Lacks x "" := by
  simp [Lacks]

theorem Lacks.of_subset (h : Lacks x t) (hs : s.toList ⊆ t.toList) : Lacks x s :=
  fun hx => h (hs hx)

theorem lacks_ofList {cs : List Char} : Lacks x (String.ofList cs) ↔ x ∉ cs := by
  simp [Lacks]

theorem lacks_intercalate (hs : Lacks x s) (h : ∀ t ∈ ts, Lacks x t) :
    Lacks x (String.intercalate s ts) := by
  induction ts with
  | nil => simp
  | cons t ts ih =>
    have ht := h t List.mem_cons_self
    have hts := ih fun u hu => h u (List.mem_cons_of_mem _ hu)
    cases ts with
    | nil => simpa using ht
    | cons u us => simpa [String.intercalate_cons_cons, ht, hs] using hts

theorem lacks_quote : Lacks x (quote t) ↔ Lacks x "\"" ∧ Lacks x t := by
  simp only [quote, lacks_append]
  tauto

theorem dropTrailing_subset (p : Char → Bool) (cs : List Char) : dropTrailing p cs ⊆ cs := by
  induction cs with
  | nil => exact List.Subset.refl _
  | cons c cs ih =>
    intro y hy
    rw [dropTrailing] at hy
    split at hy
    · split at hy
      · cases hy
      · exact List.mem_cons.2 (.inl (List.mem_singleton.1 hy))
    · exact List.cons_subset_cons c ih hy

theorem Lacks.dropFeeds (h : Lacks x t) : Lacks x (dropFeeds t) :=
  h.of_subset (by simpa [Text.dropFeeds] using dropTrailing_subset _ _)

theorem Lacks.trim (h : Lacks x t) : Lacks x (trim t) := by
  refine h.of_subset ?_
  rw [Text.trim, String.toList_ofList]
  exact List.Subset.trans (dropTrailing_subset _ _) (List.dropWhile_sublist _).subset

theorem Lacks.compact (h : Lacks x t) : Lacks x (compact t) :=
  h.of_subset (by simp [Text.compact])

theorem Lacks.unquote (h : Lacks x t) : Lacks x (unquote t) := by
  unfold Text.unquote
  split
  · next cs hcs =>
    rw [lacks_ofList]
    unfold unquoteChars? at hcs
    split at hcs
    · next rest hrest =>
      split at hcs
      · cases hcs
        intro hx
        exact h (hrest ▸ List.mem_cons_of_mem _ (List.dropLast_subset _ hx))
      · cases hcs
    · cases hcs
  · exact h

theorem Lacks.dropStart (h : Lacks x t) (start : String) : Lacks x (dropStart start t) := by
  unfold VisualProgram.dropStart
  split
  · exact lacks_ofList.2 fun hx => h ((List.drop_sublist _ _).subset hx)
  · exact h

theorem lines_subset {cs l : List Char} (hl : l ∈ lines cs) : l ⊆ cs := by
  fun_induction lines cs generalizing l with
  | case1 => cases hl
  | case2 cs ih =>
    rcases List.mem_cons.1 hl with rfl | hl
    · exact List.nil_subset _
    · exact List.subset_cons_of_subset _ (ih hl)
  | case3 cs ih =>
    rcases List.mem_cons.1 hl with rfl | hl
    · exact List.nil_subset _
    · exact List.subset_cons_of_subset _ (List.subset_cons_of_subset _ (ih hl))
  | case4 c cs _ _ hlines ih =>
    obtain rfl := List.mem_singleton.1 hl
    simp
  | case5 c cs _ _ first rest hlines ih =>
    rw [hlines] at ih
    rcases List.mem_cons.1 hl with rfl | hl
    · exact List.cons_subset_cons c (ih List.mem_cons_self)
    · exact List.subset_cons_of_subset _ (ih (List.mem_cons_of_mem _ hl))

theorem Lacks.indent {unit : String} (h : Lacks x t) (hunit : Lacks x unit)
    (hfeed : Lacks x "\n") : Lacks x (indent unit t) := by
  rw [Text.indent, lacks_ofList, indentChars, List.mem_flatMap]
  rintro ⟨l, hl, hx⟩
  rw [indentLine] at hx
  rcases List.mem_append.1 hx with hx | hx
  · split at hx
    · cases hx
    · rcases List.mem_append.1 hx with hx | hx
      · exact hunit hx
      · exact h (dropTrailing_subset _ _ (lines_subset hl hx))
  · exact hfeed (by simpa using hx)

theorem Lacks.leadLines {lead : String} (h : Lacks x t) (hlead : Lacks x lead)
    (hfeed : Lacks x "\n") : Lacks x (leadLines lead t) := by
  refine lacks_intercalate hfeed fun l hl => ?_
  obtain ⟨cs, hcs, rfl⟩ := List.mem_map.1 hl
  exact lacks_append.2 ⟨hlead, lacks_ofList.2 fun hx => h (lines_subset hcs hx)⟩

theorem lacks_substitute {value : Nat → Option String} (h : Lacks x t)
    (hvalue : ∀ i u, value i = some u → Lacks x u) : Lacks x (Template.substitute t value) := by
  rw [Template.substitute, lacks_ofList, List.mem_flatMap]
  rintro ⟨piece, hpiece, hx⟩
  unfold Template.Piece.fill at hx
  split at hx
  · next u hu =>
    obtain ⟨i, -, hi⟩ := Option.bind_eq_some_iff.1 hu
    exact hvalue i u hi hx
  · apply h
    rw [← Template.flatMap_chars_pieces t.toList]
    exact List.mem_flatMap.2 ⟨piece, hpiece, hx⟩

end Text

open Text

structure Block.Lacks (x : Char) (b : Block) : Prop where
  label : ∀ t, b.label = some t → Text.Lacks x t
  property : ∀ key t, b.property? key = some t → Text.Lacks x t

def Block.texts (b : Block) : List String :=
  b.label.toList ++ (b.property? "screenshot-path").toList

theorem Block.Lacks.texts {x : Char} {b : Block} (h : b.Lacks x) : ∀ t ∈ b.texts, Text.Lacks x t := by
  intro t ht
  rcases List.mem_append.1 ht with ht | ht
  · exact h.label t (Option.mem_toList.1 ht)
  · exact h.property _ t (Option.mem_toList.1 ht)

structure Fillings.Lack (x : Char) (f : Fillings) : Prop where
  value : ∀ i t, f.value i = some t → Lacks x t
  body : ∀ i, ∀ t ∈ f.body i, Lacks x t

def bodyTexts : List String :=
  ["\n", "pass\n"]

def Handler.texts : Handler → List String
  | literal | screenshot => ["\""]
  | name | getter => ["None"]
  | functionKey => ["Key.F", "1"]
  | sequence => bodyTexts
  | conditional => ["if ", "True", ":"] ++ bodyTexts
  | alternative => ["if ", "True", ":", "else:"] ++ bodyTexts
  | repetition => ["for i in range(", "1", "):"] ++ bodyTexts
  | loop => ["while ", "True", ":"] ++ bodyTexts
  | event e => ["def ", "(event):", e.registration, "(", ", ", ")"] ++ bodyTexts
  | comment => ["# ", "\n"]
  | call => ["(", ",", ")"]
  | importedCall => ["(", ",", ")", "."]
  | definition => ["def ", "(", ",", ")", ":"] ++ bodyTexts
  | inlineCode => []

def Rule.texts : Rule → List String
  | constant text _ => [text]
  | call name missing _ _ => [name, missing, "(", ",", ")"]
  | operator token missing _ => [token, missing, " "]
  | handler h => h.texts

section

variable {x : Char}

theorem lacks_callText {name : String} {arguments : List String} (hname : Lacks x name)
    (hopen : Lacks x "(") (hcomma : Lacks x ",") (hclose : Lacks x ")")
    (h : ∀ t ∈ arguments, Lacks x t) : Lacks x (callText name arguments) := by
  simp [callText, hname, hopen, hclose, lacks_intercalate hcomma h]

theorem lacks_operatorText {token missing : String} {operands : List String}
    (htoken : Lacks x token) (hmissing : Lacks x missing) (hblank : Lacks x " ")
    (h : ∀ t ∈ operands, Lacks x t) : Lacks x (operatorText token missing operands) := by
  unfold operatorText
  split <;> simp_all

theorem lacks_statementText {o : Options} {indented : Bool} {statement : String}
    (hunit : Lacks x o.indent) (hfeed : Lacks x "\n") (h : Lacks x statement) :
    Lacks x (statementText o indented statement) := by
  cases indented with
  | true => exact h.indent hunit hfeed
  | false => exact lacks_append.2 ⟨h.dropFeeds, hfeed⟩

theorem lacks_bodyText {o : Options} {header : Option String} {indented : Bool}
    {statements : List String} (hunit : Lacks x o.indent) (hheader : ∀ t, header = some t → Lacks x t)
    (htexts : ∀ t ∈ bodyTexts, Lacks x t) (h : ∀ t ∈ statements, Lacks x t) :
    Lacks x (bodyText o header indented statements) := by
  have hfeed : Lacks x "\n" := htexts _ (by simp [bodyTexts])
  have hpass : Lacks x "pass\n" := htexts _ (by simp [bodyTexts])
  have hlead : Lacks x ((header.map (· ++ "\n")).getD "") := by
    cases header with
    | none => exact lacks_empty
    | some t => exact lacks_append.2 ⟨hheader t rfl, hfeed⟩
  have hshown : ∀ t ∈ (statements.filter fun s => !blankText s).map (statementText o indented),
      Lacks x t := by
    intro t ht
    obtain ⟨s, hs, rfl⟩ := List.mem_map.1 ht
    exact lacks_statementText hunit hfeed (h s (List.mem_filter.1 hs).1)
  unfold bodyText
  dsimp only
  split
  · refine lacks_append.2 ⟨hlead, ?_⟩
    cases indented with
    | true => exact lacks_append.2 ⟨hunit, hpass⟩
    | false => exact lacks_empty
  · exact lacks_append.2 ⟨hlead, lacks_intercalate hfeed hshown⟩

variable {o : Options} {b : Block} {f : Fillings}

theorem lacks_getD {text : Option String} {missing : String} (hmissing : Lacks x missing)
    (h : ∀ t, text = some t → Lacks x t) : Lacks x (text.getD missing) := by
  cases text with
  | none => exact hmissing
  | some t => exact h t rfl

theorem Fillings.Lack.getD (hf : f.Lack x) {missing : String} (hmissing : Lacks x missing) (i : Nat) :
    Lacks x ((f.value i).getD missing) :=
  lacks_getD hmissing (hf.value i)

theorem Fillings.Lack.name (hf : f.Lack x) (i : Nat) : Lacks x (f.name i) :=
  (hf.getD lacks_empty i).unquote

theorem Fillings.Lack.present (hf : f.Lack x) (first count : Nat) :
    ∀ t ∈ f.present first count, Lacks x t := by
  intro t ht
  obtain ⟨i, -, hi⟩ := List.mem_filterMap.1 ht
  exact hf.value i t hi

theorem lacks_label (hb : ∀ t ∈ b.texts, Lacks x t) {missing : String}
    (h : Lacks x missing) : Lacks x (b.label.getD missing) :=
  lacks_getD h fun t ht => hb t (List.mem_append_left _ (Option.mem_toList.2 ht))

theorem Handler.lacks_header (hf : f.Lack x) {before missing after : String}
    (hbefore : Lacks x before) (hmissing : Lacks x missing) (hafter : Lacks x after) :
    ∀ t, some (header f before missing after) = some t → Lacks x t := by
  rintro _ ⟨⟩
  simp [header, hbefore, hf.getD hmissing 0, hafter]

theorem lacks_keyNumber {value : Option String} (hone : Lacks x "1")
    (h : ∀ t, value = some t → Lacks x t) : Lacks x (keyNumber value) := by
  unfold keyNumber
  cases hv : value.filter fun n => n ≠ "" ∧ n ≠ "None" with
  | none => exact hone
  | some t => exact h t (Option.filter_eq_some_iff.1 hv).1

theorem lacks_qualify {module name : String} (hdot : Lacks x ".") (hmodule : Lacks x module)
    (hname : Lacks x name) : Lacks x (qualify module name) := by
  unfold qualify
  split
  · exact hname
  · simp [hmodule, hdot, hname]

theorem Handler.lacks_render (h : Handler) (htexts : ∀ t ∈ h.texts, Lacks x t)
    (hunit : x ≠ '\n' → Lacks x o.indent) (hb : ∀ t ∈ b.texts, Lacks x t) (hf : f.Lack x) :
    Lacks x (h.render o b f).text := by
  -- whatever the header is, a body adds only its own two texts and the unit
  have hbody (hbodyTexts : ∀ t ∈ bodyTexts, Lacks x t) {header : Option String} {indented : Bool}
      (hheader : ∀ t, header = some t → Lacks x t) (i : Nat) :
      Lacks x (bodyText o header indented (f.body i)) := by
    have hx : x ≠ '\n' := by
      rintro rfl
      exact absurd (hbodyTexts "\n" (by decide)) (by decide)
    exact lacks_bodyText (hunit hx) hheader hbodyTexts (hf.body i)
  cases h with
  | literal => exact lacks_quote.2 ⟨htexts _ (by decide), lacks_label hb lacks_empty⟩
  | name => exact lacks_label hb (htexts "None" (by decide))
  | screenshot =>
    refine lacks_quote.2 ⟨htexts _ (by decide), lacks_getD lacks_empty fun t ht => ?_⟩
    exact hb t (List.mem_append_right _ (Option.mem_toList.2 ht))
  | getter => exact hf.getD (htexts _ (by decide)) 0
  | functionKey =>
    exact lacks_append.2 ⟨htexts _ (by decide), lacks_keyNumber (htexts _ (by decide)) (hf.value 0)⟩
  | sequence => exact hbody htexts (by simp) 0
  | conditional =>
    have hif := lacks_header hf (htexts "if " (by decide)) (htexts "True" (by decide))
      (htexts ":" (by decide))
    exact hbody (fun t ht => htexts t (by simp [texts, ht])) hif 1
  | alternative =>
    have hbodyTexts : ∀ t ∈ bodyTexts, Lacks x t := fun t ht => htexts t (by simp [texts, ht])
    have hif := lacks_header hf (htexts "if " (by decide)) (htexts "True" (by decide))
      (htexts ":" (by decide))
    have helse : ∀ t, some "else:" = some t → Lacks x t := by
      rintro _ ⟨⟩
      exact htexts _ (by decide)
    exact lacks_append.2 ⟨hbody hbodyTexts hif 1, hbody hbodyTexts helse 2⟩
  | repetition =>
    have hfor := lacks_header hf (htexts "for i in range(" (by decide)) (htexts "1" (by decide))
      (htexts "):" (by decide))
    exact hbody (fun t ht => htexts t (by simp [texts, ht])) hfor 1
  | loop =>
    have hwhile := lacks_header hf (htexts "while " (by decide)) (htexts "True" (by decide))
      (htexts ":" (by decide))
    exact hbody (fun t ht => htexts t (by simp [texts, ht])) hwhile 1
  | event e =>
    have hlabel : Lacks x b.compactLabel := (lacks_label hb lacks_empty).compact
    have hbodyTexts : ∀ t ∈ bodyTexts, Lacks x t := fun t ht => htexts t (by simp [texts, ht])
    simp only [texts, List.cons_append, List.forall_mem_cons] at htexts
    obtain ⟨hdef, hevent, hregistration, hopen, hcomma, hclose, -⟩ := htexts
    have hheader : ∀ t, some ("def " ++ b.compactLabel ++ "(event):") = some t → Lacks x t := by
      rintro _ ⟨⟩
      simp [hdef, hlabel, hevent]
    simp only [render, Rendered.ofText, lacks_append]
    exact ⟨⟨⟨⟨⟨⟨hbody hbodyTexts hheader 1, hregistration⟩, hopen⟩, hf.getD lacks_empty 0⟩, hcomma⟩,
      hlabel⟩, hclose⟩
  | comment => exact (lacks_label hb lacks_empty).leadLines (htexts _ (by decide)) (htexts _ (by decide))
  | call =>
    exact lacks_callText (hf.name 0) (htexts _ (by decide)) (htexts _ (by decide))
      (htexts _ (by decide)) (hf.present _ _)
  | importedCall =>
    have hmodule : Lacks x f.importedModule := ((hf.name 1).dropStart _).trim
    exact lacks_callText (lacks_qualify (htexts _ (by decide)) hmodule (hf.name 0))
      (htexts _ (by decide)) (htexts _ (by decide)) (htexts _ (by decide)) (hf.present _ _)
  | definition =>
    have hcall := lacks_callText (hf.name 0) (htexts "(" (by decide)) (htexts "," (by decide))
      (htexts ")" (by decide)) (hf.present 1 (b.bodyIndex - 1))
    have hheader : ∀ t, some ("def " ++ callText (f.name 0) (f.present 1 (b.bodyIndex - 1)) ++ ":") =
        some t → Lacks x t := by
      rintro _ ⟨⟩
      simp [htexts "def " (by decide), hcall, htexts ":" (by decide)]
    exact hbody (fun t ht => htexts t (by simp [texts, ht])) hheader _
  | inlineCode => exact lacks_substitute (lacks_label hb lacks_empty) hf.value

theorem Rule.lacks_render (r : Rule) (htexts : ∀ t ∈ r.texts, Lacks x t)
    (hunit : x ≠ '\n' → Lacks x o.indent) (hb : ∀ t ∈ b.texts, Lacks x t) (hf : f.Lack x) :
    Lacks x (r.render o b f).text := by
  cases r with
  | constant text module => exact htexts text (by simp [texts])
  | call name missing sockets module =>
    simp only [texts, List.forall_mem_cons] at htexts
    obtain ⟨hname, hmissing, hopen, hcomma, hclose, -⟩ := htexts
    refine lacks_callText hname hopen hcomma hclose fun t ht => ?_
    obtain ⟨i, -, rfl⟩ := List.mem_map.1 ht
    exact hf.getD hmissing i
  | operator token missing sockets =>
    simp only [texts, List.forall_mem_cons] at htexts
    obtain ⟨htoken, hmissing, hblank, -⟩ := htexts
    refine lacks_operatorText htoken hmissing hblank fun t ht => ?_
    obtain ⟨i, -, rfl⟩ := List.mem_map.1 ht
    exact hf.getD hmissing i
  | handler h => exact h.lacks_render htexts hunit hb hf

end

namespace Application

variable {c : Context} (a : Application c) {x : Char}

theorem fillings_lack
    (hvalue : ∀ i d, .value i ∈ a.rule.slots a.block → (c.child a.block i).value = some d →
      Lacks x (c.compileBlock a.inner d).value)
    (hbody : ∀ i d, .body i ∈ a.rule.slots a.block → (c.child a.block i).value = some d →
      ∀ t ∈ (c.compileChain a.inner .empty d).value, Lacks x t) : a.fillings.Lack x where
  value i t ht := by
    rw [fillings_value] at ht
    obtain ⟨hi, ht⟩ := Option.ite_none_right_eq_some.1 ht
    obtain ⟨d, hd, rfl⟩ := Option.map_eq_some_iff.1 ht
    exact hvalue i d hi hd
  body i t ht := by
    rw [fillings_body] at ht
    split at ht
    · next hi =>
      unfold statements at ht
      split at ht
      · next d hd => exact hbody i d hi hd t ht
      · cases ht
    · cases ht

end Application

namespace Context

variable {c : Context} {x : Char} {P : Place → Prop}

theorem lacks_compile (hunit : x ≠ '\n' → Lacks x c.options.indent)
    (hclosed : ∀ p q, P p → c.Expands p q → P q)
    (hblock : ∀ b, P (.value b) → (∀ t ∈ b.texts, Lacks x t) ∧
      ∀ r, c.registry.rule? b.genus = some r → ∀ t ∈ r.texts, Lacks x t) :
    (∀ path b, P (.value b) → Lacks x (c.compileBlock path b).value) ∧
      ∀ path seen b, P (.chain b) → ∀ t ∈ (c.compileChain path seen b).value, Lacks x t := by
  apply compile_induct c
  · intro path b ih hb
    by_cases hmem : b.id ∈ path
    · rw [compileBlock_of_mem hmem]
      exact lacks_empty
    obtain ⟨hvalue, hchain⟩ := ih hmem
    cases hr : c.registry.rule? b.genus with
    | none =>
      rw [compileBlock_of_noRule hmem hr]
      exact lacks_empty
    | some r =>
      let a : Application c := ⟨path, b, r, hmem, hr⟩
      have htext : (c.compileBlock path b).value = _ := a.compileBlock_value
      rw [htext]
      refine r.lacks_render ((hblock b hb).2 r hr) hunit (hblock b hb).1 (a.fillings_lack ?_ ?_)
      · intro i d hi hd
        have hstep : c.Expands (.value b) (.value d) := .value hr hi hd
        exact hvalue d hstep (hclosed _ _ hb hstep)
      · intro i d hi hd
        have hstep : c.Expands (.value b) (.chain d) := .body hr hi hd
        exact hchain d hstep (hclosed _ _ hb hstep)
  · intro path seen b hvalue hrest hb
    have hfirst := hvalue (hclosed _ _ hb .first)
    by_cases h : b.id ∈ seen
    · simp [compileChain_of_mem h]
    by_cases hfull : c.options.chainIsFull seen.length = true
    · simp [compileChain_of_full h hfull]
    cases hnext : (c.successor b).value with
    | none => simpa [compileChain_of_none h hfull hnext] using hfirst
    | some d =>
      have hstep : c.Expands (.chain b) (.chain d) := .next hnext
      rw [compileChain_of_some h hfull hnext]
      simpa [Logged.bind_def, Logged.pure_def] using
        ⟨hfirst, hrest h d hstep (hclosed _ _ hb hstep)⟩

end Context

end VisualProgram
