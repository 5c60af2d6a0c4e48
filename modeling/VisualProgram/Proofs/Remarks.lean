import VisualProgram.Proofs.CodeRows
import VisualProgram.Proofs.Layout
import VisualProgram.Proofs.Names

/-!
Blocks that leave no code. What a rule writes itself is code, so a text of nothing but comments comes
from a comment block, or from a label or a name that opens like a comment. Only an indented body whose
statements are all blank is given a statement of its own.
-/

namespace VisualProgram

open Text

def Handler.lead? : Handler → Option String
  | literal | screenshot => some "\""
  | functionKey => some "Key.F"
  | conditional | alternative => some "if "
  | repetition => some "for i in range("
  | loop => some "while "
  | event _ | definition => some "def "
  | name | getter | sequence | comment | call | importedCall | inlineCode => none

theorem Handler.render_of_lead {h : Handler} {lead : String} (hlead : h.lead? = some lead)
    (o : Options) (b : Block) (f : Fillings) : ∃ rest, (h.render o b f).text = lead ++ rest := by
  cases h <;> cases hlead <;>
    simp only [render, Rendered.ofText, bodyText_header, header, callText, quote,
      String.append_assoc] <;>
    exact ⟨_, rfl⟩

theorem Handler.isCode_of_lead {h : Handler} {lead : String} (hlead : h.lead? = some lead) :
    IsCode lead.toList := by
  cases h <;> cases hlead <;> decide

theorem commentsOnly_of_callText {name : String} {arguments : List String}
    (h : CommentsOnly (callText name arguments)) : CommentsOnly name := by
  have hopen : IsCode ("(" ++ (String.intercalate "," arguments ++ ")")).toList := by
    rw [String.toList_append]
    exact IsCode.append (by decide) _
  rw [callText, String.append_assoc, String.append_assoc] at h
  exact h.of_append hopen

def Rule.opensCode : Rule → Bool
  | constant text _ => HasCode text
  | call name _ _ _ => HasCode name
  | operator token missing _ => IsCode token.toList && !CommentsOnly missing
  | handler _ => true

theorem Registry.standard_opensCode : ∀ e ∈ standard.rules, e.2.opensCode = true := by
  decide +kernel

namespace Application

variable {c : Context}

inductive Remark : Application c → Prop
  | comment {a : Application c} : a.rule = .handler .comment → Remark a
  | label {a : Application c} {t : String} : a.rule = .handler .name → a.block.label = some t →
      CommentsOnly t → Remark a
  | template {a : Application c} {t : String} : a.rule = .handler .inlineCode →
      a.block.label = some t →
      (∀ row ∈ rows t, opening? row ∈ [none, some '#', some '$']) → Remark a
  | called {a : Application c} : a.rule = .handler .call → CommentsOnly (a.name 0) → Remark a
  | imported {a : Application c} : a.rule = .handler .importedCall →
      CommentsOnly (qualify a.socketModule (a.name 0)) → Remark a
  | value {a e : Application c} : a.rule = .handler .getter ∨
      (∃ token missing, a.rule = .operator token missing [0, 1]) →
      (c.child a.block 0).value = some e.block → e.path = a.inner → Remark e → Remark a
  | level {a e : Application c} {first : Block} : a.rule = .handler .sequence →
      (c.child a.block 0).value = some first → c.ChainPart .empty first e.block →
      e.path = a.inner → Remark e → Remark a

def indented (a : Application c) (index : Nat) : String :=
  bodyText c.options none true (a.statements index)

variable {a : Application c}

theorem not_hasCode_of_comment (h : a.rule = .handler .comment) :
    ¬HasCode (c.compileBlock a.path a.block).value := by
  rw [a.compileBlock_value, h]
  exact not_hasCode_leadLines _

theorem remark_of_label (hr : a.rule = .handler .name)
    (h : CommentsOnly (c.compileBlock a.path a.block).value) : a.Remark := by
  have htext : CommentsOnly (a.block.label.getD "None") := by
    rw [a.compileBlock_value, hr] at h
    exact h
  cases hlabel : a.block.label with
  | none =>
    rw [hlabel] at htext
    exact absurd htext (by decide)
  | some t =>
    rw [hlabel] at htext
    exact .label hr hlabel htext

theorem remark_of_template (hr : a.rule = .handler .inlineCode)
    (h : CommentsOnly (c.compileBlock a.path a.block).value) : a.Remark := by
  have htext : CommentsOnly (Template.substitute (a.block.label.getD "") a.fillings.value) := by
    rw [a.compileBlock_value, hr] at h
    exact h
  cases hlabel : a.block.label with
  | none =>
    have hempty : Template.substitute "" a.fillings.value = "" := by
      simp [Template.substitute, Template.pieces]
    rw [hlabel, Option.getD_none, hempty] at htext
    exact absurd htext (by decide)
  | some t =>
    rw [hlabel] at htext
    refine .template hr hlabel fun row hrow => ?_
    by_contra hrow'
    cases hopen : opening? row with
    | none => simp [hopen] at hrow'
    | some x =>
      obtain ⟨hcode, hx⟩ : x ≠ '#' ∧ x ≠ '$' := by simpa [hopen] using hrow'
      exact htext.2 (hasCode_substitute hrow hopen hcode hx _)

section

variable (hunit : ∀ x ∈ c.options.indent.toList, x = ' ' ∨ x = '\t')
  (hvalue : ∀ d, .value 0 ∈ a.rule.slots a.block → (c.child a.block 0).value = some d →
    CommentsOnly (c.compileBlock a.inner d).value →
    ∃ e : Application c, e.path = a.inner ∧ e.block = d ∧ e.Remark)
  (hbody : ∀ first, .body 0 ∈ a.rule.slots a.block → (c.child a.block 0).value = some first →
    ∀ t ∈ (c.compileChain a.inner .empty first).value, CommentsOnly t →
    ∃ e : Application c, e.path = a.inner ∧ c.ChainPart .empty first e.block ∧ e.Remark)

include hvalue in
theorem remark_of_getter (hr : a.rule = .handler .getter)
    (h : CommentsOnly (c.compileBlock a.path a.block).value) : a.Remark := by
  have hslot : .value 0 ∈ a.rule.slots a.block := by simp [hr, Rule.slots, Handler.slots]
  have htext : CommentsOnly ((a.socket 0).getD "None") := by
    rw [a.compileBlock_value, hr, Rule.render, Handler.render, a.fillings_value_of_mem hslot] at h
    exact h
  cases hchild : (c.child a.block 0).value with
  | none =>
    rw [socket, hchild] at htext
    exact absurd htext (by decide : ¬CommentsOnly "None")
  | some d =>
    rw [socket, hchild] at htext
    obtain ⟨e, hpath, rfl, he⟩ := hvalue d hslot hchild htext
    exact .value (.inl hr) hchild hpath he

include hvalue in
theorem remark_of_operator {token missing : String} {sockets : List Nat}
    (hr : a.rule = .operator token missing sockets) (hsockets : sockets = [0, 1] ∨ sockets = [0])
    (hcode : a.rule.opensCode = true) (h : CommentsOnly (c.compileBlock a.path a.block).value) :
    a.Remark := by
  obtain ⟨htoken, hmissing⟩ : IsCode token.toList ∧ ¬CommentsOnly missing := by
    simpa [hr, Rule.opensCode] using hcode
  rw [a.operator_text hr] at h
  have hrest (rest : String) : IsCode (token ++ rest).toList := by
    rw [String.toList_append]
    exact htoken.append _
  rcases hsockets with rfl | rfl
  · have hblank : ∀ x ∈ " ".toList, isBlank x = true := by simp; decide
    have hspaced : IsCode (" " ++ (token ++ " " ++ (a.socket 1).getD missing)).toList := by
      rw [String.toList_append, isCode_append_of_blank hblank, String.append_assoc]
      exact hrest _
    have hleft : CommentsOnly ((a.socket 0).getD missing) := by
      apply CommentsOnly.of_append (t := " " ++ (token ++ " " ++ (a.socket 1).getD missing)) _ hspaced
      simpa [operatorText, String.append_assoc] using h
    cases hchild : (c.child a.block 0).value with
    | none =>
      rw [socket, hchild] at hleft
      exact absurd hleft hmissing
    | some d =>
      rw [socket, hchild] at hleft
      obtain ⟨e, hpath, rfl, he⟩ := hvalue d (by simp [hr, Rule.slots]) hchild hleft
      exact .value (.inr ⟨token, missing, hr⟩) hchild hpath he
  · have htext : HasCode (token ++ (" " ++ (a.socket 0).getD missing)) := hasCode_of_isCode (hrest _)
    rw [← String.append_assoc] at htext
    exact absurd htext h.2

include hunit hbody in
theorem remark_of_level (hr : a.rule = .handler .sequence)
    (h : CommentsOnly (c.compileBlock a.path a.block).value) : a.Remark := by
  have hslot : .body 0 ∈ a.rule.slots a.block := by simp [hr, Rule.slots, Handler.slots]
  have htext : (c.compileBlock a.path a.block).value =
      bodyText c.options none false (a.statements 0) := by
    rw [a.compileBlock_value, hr, Rule.render, Handler.render, a.fillings_body_of_mem hslot]
    rfl
  rw [htext] at h
  obtain ⟨t, ht, hblank⟩ : ∃ t ∈ a.statements 0, blankText t = false := by
    by_contra hall
    have hempty : bodyText c.options none false (a.statements 0) = "" :=
      bodyText_of_blank (by simpa using hall) false
    rw [hempty] at h
    exact absurd h (by decide)
  have hnone : ¬HasCode t := fun hcode => h.2 ((hasCode_bodyText hunit _ _).2 (.inr ⟨t, ht, hcode⟩))
  unfold statements at ht
  split at ht
  · next first hfirst =>
    obtain ⟨e, hpath, hpart, he⟩ := hbody first hslot hfirst t ht ⟨hblank, hnone⟩
    exact .level hr hfirst hpart hpath he
  · cases ht

include hunit hvalue hbody in
theorem remark_of_parts (hreg : c.registry = .standard)
    (h : CommentsOnly (c.compileBlock a.path a.block).value) : a.Remark := by
  have hstandard : Registry.standard.rule? a.block.genus = some a.rule := hreg ▸ a.ruled
  have hcode : a.rule.opensCode = true :=
    Registry.standard_opensCode _ (Registry.mem_rules_of_rule? hstandard)
  cases hr : a.rule with
  | constant text module =>
    rw [a.compileBlock_value, hr] at h
    rw [hr] at hcode
    exact absurd (of_decide_eq_true hcode) h.2
  | call name missing sockets module =>
    rw [a.compileBlock_value, hr] at h
    rw [hr] at hcode
    have hname : HasCode name := of_decide_eq_true hcode
    exact absurd hname (commentsOnly_of_callText h).2
  | operator token missing sockets =>
    rw [hr] at hstandard
    refine a.remark_of_operator hvalue hr ?_ hcode h
    exact (Registry.operator_of_standard hstandard).imp_right And.left
  | handler x =>
    cases hlead : x.lead? with
    | some lead =>
      obtain ⟨rest, htext⟩ := Handler.render_of_lead hlead c.options a.block a.fillings
      rw [a.compileBlock_value, hr, Rule.render, htext] at h
      exact absurd ((hasCode_of_isCode (Handler.isCode_of_lead hlead)).append rest) h.2
    | none =>
      cases x with
      | comment => exact .comment hr
      | name => exact remark_of_label hr h
      | getter => exact remark_of_getter hvalue hr h
      | sequence => exact remark_of_level hunit hbody hr h
      | call =>
        rw [a.call_text hr] at h
        exact .called hr (commentsOnly_of_callText h)
      | importedCall =>
        rw [a.importedCall_text hr] at h
        exact .imported hr (commentsOnly_of_callText h)
      | inlineCode => exact remark_of_template hr h
      | _ => cases hlead

end

end Application

namespace Context

variable {c : Context}

theorem remark_of_commentsOnly (hreg : c.registry = .standard)
    (hunit : ∀ x ∈ c.options.indent.toList, x = ' ' ∨ x = '\t') :
    (∀ path b, CommentsOnly (c.compileBlock path b).value →
      ∃ e : Application c, e.path = path ∧ e.block = b ∧ e.Remark) ∧
    ∀ path seen b, ∀ t ∈ (c.compileChain path seen b).value, CommentsOnly t →
      ∃ e : Application c, e.path = path ∧ c.ChainPart seen b e.block ∧ e.Remark := by
  apply compile_induct c
  · intro path b ih h
    by_cases hmem : b.id ∈ path
    · rw [compileBlock_of_mem hmem] at h
      exact absurd h (by decide : ¬CommentsOnly "")
    obtain ⟨hvalue, hchain⟩ := ih hmem
    cases hr : c.registry.rule? b.genus with
    | none =>
      rw [compileBlock_of_noRule hmem hr] at h
      exact absurd h (by decide : ¬CommentsOnly "")
    | some r =>
      let a : Application c := ⟨path, b, r, hmem, hr⟩
      have hparts (d : Block) (hslot : .value 0 ∈ a.rule.slots a.block)
          (hd : (c.child a.block 0).value = some d) := hvalue d (.value hr hslot hd)
      have hchains (first : Block) (hslot : .body 0 ∈ a.rule.slots a.block)
          (hfirst : (c.child a.block 0).value = some first) := hchain first (.body hr hslot hfirst)
      exact ⟨a, rfl, rfl, a.remark_of_parts hunit hparts hchains hreg h⟩
  · intro path seen b hvalue hrest t ht hcomments
    by_cases h : b.id ∈ seen
    · rw [compileChain_of_mem h] at ht
      cases ht
    by_cases hfull : c.options.chainIsFull seen.length = true
    · rw [compileChain_of_full h hfull] at ht
      cases ht
    have hfirst (htext : t = (c.compileBlock path b).value) :
        ∃ e : Application c, e.path = path ∧ c.ChainPart seen b e.block ∧ e.Remark := by
      obtain ⟨e, hpath, rfl, he⟩ := hvalue (htext ▸ hcomments)
      exact ⟨e, hpath, (chainPart_iff h hfull).2 (.inl rfl), he⟩
    cases hnext : (c.successor b).value with
    | none =>
      rw [compileChain_of_none h hfull hnext] at ht
      exact hfirst (List.mem_singleton.1 ht)
    | some d =>
      rw [compileChain_of_some h hfull hnext] at ht
      rcases List.mem_cons.1 ht with htext | ht
      · exact hfirst htext
      · obtain ⟨e, hpath, hpart, he⟩ := hrest h d (.next hnext) t ht hcomments
        exact ⟨e, hpath, (chainPart_iff h hfull).2 (.inr ⟨d, hnext, hpart⟩), he⟩

/-- An indented body has code as soon as one of its statements has, and `pass` if all of them are blank.
What is left are bodies with nothing in them but comments. -/
theorem code_in_bodies (hreg : c.registry = .standard)
    (hunit : ∀ x ∈ c.options.indent.toList, x = ' ' ∨ x = '\t') :
    (∀ (a : Application c) parts tail, a.Headed parts tail →
      (c.compileBlock a.path a.block).value =
          String.join (parts.map fun p => p.1 ++ "\n" ++ a.indented p.2) ++ tail ∧
        ∀ p ∈ parts,
          ((∀ t ∈ a.statements p.2, blankText t = true) →
            a.indented p.2 = c.options.indent ++ "pass\n") ∧
          (HasCode (a.indented p.2) ↔ (∀ t ∈ a.statements p.2, blankText t = true) ∨
            ∃ t ∈ a.statements p.2, HasCode t) ∧
          (¬HasCode (a.indented p.2) → ∃ first, ∃ e : Application c,
            (c.child a.block p.2).value = some first ∧ c.ChainPart .empty first e.block ∧
              e.path = a.inner ∧ e.Remark)) ∧
      ∀ a : Application c, a.rule = .handler .comment →
        ¬HasCode (c.compileBlock a.path a.block).value := by
  refine ⟨fun a parts tail h => ⟨?_, fun p _ => ?_⟩, fun a => a.not_hasCode_of_comment⟩
  · rw [a.text_of_headed hreg h]
    simp only [bodyText_header]
    rfl
  · have hcode := hasCode_bodyText hunit true (a.statements p.2)
    rw [and_iff_right rfl] at hcode
    refine ⟨fun hblank => bodyText_of_blank hblank true, hcode, fun hnone => ?_⟩
    obtain ⟨hshown, hcomments⟩ := not_or.1 (mt hcode.2 hnone)
    obtain ⟨t, ht, hblank⟩ : ∃ t ∈ a.statements p.2, blankText t = false := by simpa using hshown
    have honly : CommentsOnly t := ⟨hblank, fun hcode => hcomments ⟨t, ht, hcode⟩⟩
    unfold Application.statements at ht
    split at ht
    · next first hfirst =>
      obtain ⟨e, hpath, hpart, he⟩ := (remark_of_commentsOnly hreg hunit).2 _ _ first t ht honly
      exact ⟨first, e, hfirst, hpart, hpath, he⟩
    · cases ht

end Context

namespace Block

def commentedTest : Block :=
  { ofGenus "if" with
    id := .ofNat 1
    sockets := [Socket.any "test", (Socket.any "then").connect (.ofNat 2)] }

def remark : Block :=
  { ofGenus "comment" with id := .ofNat 2, label := some "to do" }

def skippingLoop : Block :=
  { ofGenus "while" with
    id := .ofNat 3
    sockets := [Socket.any "test", (Socket.any "do").connect (.ofNat 4)] }

def skipped : Block :=
  { ofGenus "teleport" with id := .ofNat 4 }

end Block

def BlockGraph.codelessBodies : BlockGraph where
  blocks := [.commentedTest, .remark, .skippingLoop, .skipped]
  named := by decide
  distinct := by decide

theorem Context.code_in_bodies_skippingLoop :
    let c : Context := ⟨.ofGraph .codelessBodies, .standard, .standard⟩
    (c.compileBlock .empty .skippingLoop).value = "while True:\n\tpass\n" ∧ HasCode "\tpass\n" := by
  intro c
  let a : Application c := ⟨.empty, .skippingLoop, .handler .loop, Trail.notMem_empty _, rfl⟩
  have hloop : a.Headed [("while " ++ (a.socket 0).getD "True" ++ ":", 1)] "" := .loop rfl
  have hunit : ∀ x ∈ c.options.indent.toList, x = ' ' ∨ x = '\t' :=
    show ∀ x ∈ "\t".toList, x = ' ' ∨ x = '\t' by simp
  obtain ⟨htext, hparts⟩ := (code_in_bodies rfl hunit).1 a _ _ hloop
  obtain ⟨hpass, hcode, -⟩ := hparts _ (List.mem_singleton_self _)
  have hchain : (c.compileChain a.inner .empty .skipped).value = [""] := by
    have hskipped : c.compileBlock a.inner .skipped = _ := compileBlock_of_noRule (by decide) rfl
    rw [compileChain_of_none (Trail.notMem_empty _) (by decide) rfl, hskipped]
  have hblank : ∀ t ∈ a.statements 1, blankText t = true := by
    have hstatements : a.statements 1 = [""] := hchain
    rw [hstatements]
    decide
  have hbody : a.indented 1 = "\tpass\n" := hpass hblank
  have hsocket : a.socket 0 = none := rfl
  have hblock : (c.compileBlock .empty .skippingLoop).value = "while True:\n" ++ "\tpass\n" := by
    rw [List.map_singleton, hbody, hsocket] at htext
    exact htext.trans (by decide)
  exact ⟨hblock, hbody ▸ hcode.2 (.inl hblank)⟩

theorem Script.compile_commentedTest :
    let body := "\t# to do\n"
    Script.compile ⟨.ofGraph .codelessBodies, .standard, .standard⟩ (.ofNat 1) =
      ⟨"if True:\n" ++ body, [], []⟩ ∧ blankText body = false ∧ ¬HasCode body := by
  refine ⟨Session.compile_of_pass (n := 2) ?_, ?_, ?_⟩
  all_goals decide +kernel

end VisualProgram
