import PixelEffects.Proofs.Script.Host
import PixelEffects.Proofs.Script.Vocabulary.Evaluation

/-!
# Hosts and Vocabularies

A host that passes in nothing but texts of a vocabulary is told no others.

What a host does with an engine are single computations of the machine, each of which begins where
the one before it has ended, whether that was with a result or with a fault. So what a computation
keeps is kept by all of them. What is passed in becomes entries of new tables, and what is taken out
was an entry of a table. A key that is taken out as the name of a field has become a text on the way,
which is the text that it is displayed as.

## Main definitions

* `HostValue.every`, `HostOp.every`, `HostAnswer.every`: All texts of something are of a class.
* `Vocabulary.AdmitsEngine`: An engine with a machine of a vocabulary.

## Theorems

* `HostValue.toScript_admitted`, `HostValue.ofScript_every`: Values that are passed in and taken out.
* `Engine.answer_admitted`, `Engine.answers_admitted`: What a host does.
-/

namespace PixelEffects

namespace Script

mutual

/-- The texts in a host value are of a class, and so are the names of its fields. -/
def HostValue.every (text : String → Bool) : HostValue → Bool
  | .text s => text s
  | .record fields => everyHostField text fields
  | _ => true

/-- The same for the fields of a record. -/
def everyHostField (text : String → Bool) : List (String × HostValue) → Bool
  | [] => true
  | (name, v) :: fields => text name && v.every text && everyHostField text fields

end

/-- The texts that a host passes in are of a class. The name of a global is not passed to a script. -/
def HostOp.every (text : String → Bool) : HostOp → Bool
  | .run chunk => everyStmt (literalChecks text) chunk.body
  | .bind _ v => v.every text
  | .call _ args => args.all (HostValue.every text)
  | .entryPoint _ => true

/-- The texts that a host is given are of a class. -/
def HostAnswer.every (text : String → Bool) : HostAnswer → Bool
  | .called (.ok v) => v.every text
  | _ => true

/-- An engine in a setting, with a machine of a vocabulary. -/
structure Vocabulary.AdmitsEngine {s : Setting} (V : Vocabulary s.address) (e : Engine) : Prop where
  setting : e.setting = s
  machine : V.AdmitsMachine e.machine

open Vocabulary

/-! ## Values that are passed in -/

section Values

variable {address : Addressing} {V : Vocabulary address}

mutual

theorem HostValue.toScript_admitted : (v : HostValue) → v.every V.text = true → {heap : Heap} →
    V.AdmitsHeap heap → V.Admits (v.toScript heap).1 ∧ V.AdmitsHeap (v.toScript heap).2
  | .nil, _, _, hheap | .bool _, _, _, hheap | .number _, _, _, hheap
  | .foreign _, _, _, hheap => ⟨trivial, hheap⟩
  | .text _, h, _, hheap => ⟨h, hheap⟩
  | .record fields, h, _, hheap => by
      rcases fieldsToScript_admitted fields h .empty hheap with ⟨ht, hheap'⟩
      exact ⟨hheap'.admits_new, hheap'.push ht⟩

theorem fieldsToScript_admitted : (fields : List (String × HostValue)) →
    everyHostField V.text fields = true → {t : Table} → V.AdmitsTable t → {heap : Heap} →
      V.AdmitsHeap heap → V.AdmitsTable (HostValue.fieldsToScript fields t heap).1 ∧
        V.AdmitsHeap (HostValue.fieldsToScript fields t heap).2
  | [], _, _, ht, _, hheap => ⟨ht, hheap⟩
  | (name, v) :: fields, h, _, ht, _, hheap => by
      simp only [everyHostField, Bool.and_eq_true] at h
      rcases HostValue.toScript_admitted v h.1.2 hheap with ⟨hv, hheap'⟩
      have hname : V.Admits (Key.text name).toValue := h.1.1
      exact fieldsToScript_admitted fields h.2 (ht.set hname hv) hheap'

end

theorem HostValue.allToScript_admitted {vs : List HostValue}
    (h : vs.all (HostValue.every V.text) = true) {heap : Heap} (hheap : V.AdmitsHeap heap) :
    V.AdmitsAll (allToScript vs heap).1 ∧ V.AdmitsHeap (allToScript vs heap).2 := by
  induction vs generalizing heap with
  | nil => exact ⟨AdmitsAll.nil, hheap⟩
  | cons v vs ih =>
      rw [List.all_cons, Bool.and_eq_true] at h
      rcases toScript_admitted v h.1 hheap with ⟨hv, hheap'⟩
      rcases ih h.2 hheap' with ⟨hvs, hheap''⟩
      exact ⟨hvs.cons hv, hheap''⟩

/-! ## Values that are taken out -/

/-- A field of a record is one of those that it was made of. -/
theorem HostValue.mem_of_mem_collect {fields : List (String × HostValue)} {f : String × HostValue}
    (h : f ∈ collect fields) : f ∈ fields := by
  have hinsert : ∀ (m : Std.TreeMap String HostValue) (g : String × HostValue),
      f ∈ (m.insert g.1 g.2).toList → f = g ∨ f ∈ m.toList := by
    intro m g hf
    rw [Std.TreeMap.mem_toList_iff_getElem?_eq_some, Std.TreeMap.getElem?_insert] at hf
    split at hf
    · next hname =>
        have hkey := Std.LawfulEqOrd.eq_of_compare hname
        exact .inl (Prod.ext hkey.symm (Option.some.inj hf).symm)
    · exact .inr (Std.TreeMap.mem_toList_iff_getElem?_eq_some.mpr hf)
  have hfold : ∀ (gs : List (String × HostValue)) (m : Std.TreeMap String HostValue),
      f ∈ (gs.foldl (fun m g => m.insert g.1 g.2) m).toList → f ∈ m.toList ∨ f ∈ gs := by
    intro gs
    induction gs with
    | nil => exact fun m hf => .inl hf
    | cons g gs ih =>
        intro m hf
        rw [List.foldl_cons] at hf
        rcases ih _ hf with hf | hf
        · rcases hinsert m g hf with rfl | hf
          · exact .inr List.mem_cons_self
          · exact .inl hf
        · exact .inr (List.mem_cons_of_mem g hf)
  rcases hfold fields ∅ h with hnone | hmem
  · rw [Std.TreeMap.mem_toList_iff_getElem?_eq_some, Std.TreeMap.getElem?_emptyc] at hnone
    cases hnone
  · exact hmem

/-- The name that a key becomes is what it is displayed as. -/
theorem HostValue.fieldName_eq (k : Key) : fieldName k = k.toValue.display address := by
  cases k <;> rfl

theorem everyHostField_of_forall {text : String → Bool} {fields : List (String × HostValue)}
    (h : ∀ f ∈ fields, text f.1 = true ∧ f.2.every text = true) :
    everyHostField text fields = true := by
  induction fields with
  | nil => rfl
  | cons f fields ih =>
      rcases h f List.mem_cons_self with ⟨hname, hvalue⟩
      rw [everyHostField, hname, hvalue, ih fun g hg => h g (List.mem_cons_of_mem f hg)]
      rfl

/-- By induction on how many records may stand around a table. -/
theorem HostValue.ofScriptWithin_every {heap : Heap} (hheap : V.AdmitsHeap heap) (depth : Nat)
    {v : Value} (hv : V.Admits v) : (ofScriptWithin heap depth v).every V.text = true := by
  induction depth generalizing v with
  | zero =>
      cases v with
      | text s => exact hv
      | _ => rfl
  | succ depth ih =>
      cases v with
      | text s => exact hv
      | table id =>
          refine everyHostField_of_forall fun f hf => ?_
          rcases List.mem_map.mp (mem_of_mem_collect hf) with ⟨⟨k, w⟩, hentry, rfl⟩
          rcases Table.get_of_mem_toList hentry with ⟨rfl, hk⟩
          have ht := hheap.tables id hv
          refine ⟨?_, ih (ht.entries k)⟩
          rw [fieldName_eq]
          exact admits_display (ht.keys k hk)
      | _ => rfl

theorem HostValue.ofScript_every {heap : Heap} (hheap : V.AdmitsHeap heap) {v : Value}
    (hv : V.Admits v) : (ofScript heap v).every V.text = true :=
  ofScriptWithin_every hheap maxDepth hv

end Values

/-! ## What a host does -/

variable {s : Setting} {V : Vocabulary s.address}

theorem execChunk_admitted {chunk : Chunk}
    (h : everyStmt (literalChecks V.text) chunk.body = true) : V.Keeps (fun _ => True) (execChunk chunk) := by
  intro m hm
  refine Vocabulary.Keeps.bind (P := V.AdmitsFlow) ?_ (fun flow _ => ?_) _ ?_
  · exact block_admitted callWithin_admitted _ h
  · cases flow with
    | broken => exact .fault _
    | _ => exact .pure trivial
  · exact hm.unaffected rfl rfl rfl

theorem callGlobal_admitted (name : String) {args : List Value} (hargs : V.AdmitsAll args) :
    V.Keeps V.AdmitsAll (callGlobal name args : Eval String _) := by
  intro m hm
  have hrestarted : V.AdmitsMachine m.restarted := hm.unaffected rfl rfl rfl
  unfold callGlobal
  dsimp only
  split
  · exact .error hrestarted
  · have hglobal := hrestarted.heap.globals (.text name)
    exact Vocabulary.Keeps.callValue callWithin_admitted .none hglobal hargs _ hrestarted

namespace Engine

variable {e : Engine} {α : Type}

/-- A computation that keeps a vocabulary, as a run on the machine of an engine. -/
theorem run_admitted {Q : α → Prop} {x : Eval String α} (hx : V.Keeps Q x)
    (he : V.AdmitsEngine e) :
    V.AdmitsEngine (e.run x).2 ∧ ∀ a, (e.run x).1 = .ok a → Q a := by
  rcases e with ⟨setting, machine⟩
  rcases he with ⟨rfl, hm⟩
  have hend := hx machine hm
  unfold run
  dsimp only
  generalize x setting machine = r at hend
  cases hend with
  | ok hm' ha =>
      refine ⟨⟨rfl, hm'⟩, fun a heq => ?_⟩
      cases heq
      exact ha
  | error hm' =>
      refine ⟨⟨rfl, hm'⟩, fun a heq => ?_⟩
      cases heq

/-- One operation of a host keeps a vocabulary, and its answer is of it. -/
theorem answer_admitted (he : V.AdmitsEngine e) {op : HostOp} (hop : op.every V.text = true) :
    V.AdmitsEngine (e.answer op).2 ∧ (e.answer op).1.every V.text = true := by
  cases op with
  | run chunk => exact ⟨(run_admitted (execChunk_admitted hop) he).1, rfl⟩
  | bind name v =>
      rcases HostValue.toScript_admitted v hop he.machine.heap with ⟨hv, hheap⟩
      exact ⟨⟨he.setting, he.machine.withTables (hheap.setGlobal _ hv)⟩, rfl⟩
  | call name args =>
      rcases HostValue.allToScript_admitted hop he.machine.heap with ⟨hargs, hheap⟩
      have hpassed : V.AdmitsEngine
          ⟨e.setting, (e.machine.onTables (HostValue.allToScript args)).2⟩ :=
        ⟨he.setting, he.machine.withTables hheap⟩
      have hrun := run_admitted (callGlobal_admitted name hargs) hpassed
      have htables : (e.machine.onTables (HostValue.allToScript args)).1 =
          (HostValue.allToScript args e.machine.tables).1 := rfl
      simp only [answer, call_eq, htables]
      generalize Engine.run ⟨e.setting, (e.machine.onTables (HostValue.allToScript args)).2⟩
        (callGlobal name (HostValue.allToScript args e.machine.tables).1) = r at hrun
      rcases r with ⟨result, e'⟩
      rcases hrun with ⟨he', hvs⟩
      refine ⟨he', ?_⟩
      cases result with
      | ok vs => exact HostValue.ofScript_every he'.machine.heap ((hvs vs rfl).headD)
      | error f => rfl
  | entryPoint name => exact ⟨he, rfl⟩

/-- All operations of a host keep a vocabulary, and their answers are of it. -/
theorem answers_admitted (he : V.AdmitsEngine e) {ops : List HostOp}
    (hops : ∀ op ∈ ops, op.every V.text = true) :
    V.AdmitsEngine (e.answers ops).2 ∧
      ∀ answer ∈ (e.answers ops).1, answer.every V.text = true := by
  induction ops generalizing e with
  | nil => exact ⟨he, fun _ h => (List.not_mem_nil h).elim⟩
  | cons op ops ih =>
      have hops' : ∀ op' ∈ ops, op'.every V.text = true :=
        fun op' hop' => hops op' (List.mem_cons_of_mem op hop')
      rcases answer_admitted he (hops op List.mem_cons_self) with ⟨hfirst, hanswer⟩
      rcases ih hfirst hops' with ⟨hrest, hanswers⟩
      refine ⟨hrest, fun answer h => ?_⟩
      rcases List.mem_cons.mp h with rfl | h
      · exact hanswer
      · exact hanswers answer h

end Engine

end Script

end PixelEffects
