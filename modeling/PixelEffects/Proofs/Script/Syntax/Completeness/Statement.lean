import PixelEffects.Proofs.Script.Syntax.Completeness.Operand

/-!
# Completeness: Statements

The statements that can be written are read, one level further out than their parts.

The keyword in front says what a statement is. Without one it is an assignment or a call, and the
token behind its first expression says which. The only statements that do not end with a token of
their own end before a semicolon or where the block ends.

## Theorems

* `Level.Complete.branch`, `Level.Complete.forLoop_count`, `Level.Complete.definition` and others: One
  for each kind of statement.
* `Level.Complete.statementBelow`: Statements.
-/

namespace PixelEffects

namespace Script

open PixelEffects.Script.Parser

variable {chunk : String}

namespace Level

/-- The names of a loop over an iterator, behind the first. -/
theorem reads_moreNames (l : Level) (first : String) (names : List String) {t : Token}
    (ht : t ≠ .mark .comma) :
    Reads l.rounds (l.moreNames first) ((names.map nameTokens).flatMap (.mark .comma :: ·)) t
      fun names' => names' = first :: names := by
  unfold Level.moreNames
  cases names with
  | nil =>
      refine Reads.accept_none ht ?_
      rw [if_neg Bool.false_ne_true]
      exact Reads.pure rfl
  | cons name names =>
      refine Reads.accept_some ?_
      rw [if_pos rfl]
      refine Reads.map ((Reads.names (List.cons_ne_nil name names) ht).imp ?_)
      rintro _ rfl
      rfl

/-- The name of a method, if there is one. -/
theorem reads_methodName? (l : Level) {method : Option String} {t : Token}
    (ht : t ≠ .mark .colon) :
    Reads l.rounds methodName? (methodTokens method) t
      fun method' => method' = method := by
  unfold methodName?
  cases method with
  | none =>
      refine Reads.accept_none ht ?_
      rw [if_neg Bool.false_ne_true]
      exact Reads.pure rfl
  | some name =>
      refine Reads.accept_some ?_
      rw [if_pos rfl]
      exact Reads.name (Reads.pure rfl)

/-- A statement that begins like a target or a call is one or the other. -/
theorem action_of_startsHead (l : Level) {t : Token} (ht : t.startsHead = true) (line : Nat) :
    l.action chunk ⟨t, line⟩ = l.exprStatement := by
  unfold Level.action
  cases t with
  | name x => rfl
  | mark m => cases m <;> first | rfl | cases ht
  | _ => cases ht

namespace Complete

variable {l : Level} {n : Nat} {t : Token} (h : l.Complete chunk n)

include h

/-! ### Branches and loops -/

theorem arm {a : Arm} (ha : a.every (printChecks chunk) = true) (hn : a.levels ≤ n)
    (ht : t.endsBlock = true) :
    Reads l.rounds l.arm a.tokens t fun a' => a'.unlined = a.unlined := by
  rcases a with ⟨condition, body⟩
  rw [Arm.every, Bool.and_eq_true] at ha
  rw [Arm.levels] at hn
  rw [Arm.tokens]
  unfold Level.arm
  refine Reads.bind (h.expr ha.1 (by omega) rfl) fun condition' hcondition => ?_
  refine Reads.expect (Reads.map ?_)
  refine (h.block ha.2 (by omega) ht).imp fun body' hbody => ?_
  rw [Arm.unlined, Arm.unlined, Measured.unlined_of_seen hcondition, hbody]

/-- The arms that are still to come, and the end of the branch. -/
theorem arms {otherwise : Option (List Stmt)}
    (helse : ∀ body, otherwise = some body →
      everyStmt (printChecks chunk) body = true ∧ levelsOfBlock body ≤ n)
    {arms : List Arm} (harms : everyArm (printChecks chunk) arms = true)
    (hn : levelsOfArms arms ≤ n) (before : List Arm) :
    Loops l.rounds l.armStep (before, none)
      ((tokensOfArms arms).flatMap (.mark .elseIfWord :: ·) ++ elseTokens otherwise) t
      fun r => r.1.reverse.map Arm.unlined =
          before.reverse.map Arm.unlined ++ arms.map Arm.unlined ∧
        r.2.map unlinedBlock = otherwise.map unlinedBlock := by
  induction arms generalizing before with
  | nil =>
      rw [List.map_nil, List.append_nil, tokensOfArms, List.flatMap_nil, List.nil_append]
      cases otherwise with
      | none =>
          refine Loops.ended ?_ fun hnil => by cases hnil
          refine Reads.accept_none (fun h => by cases h) ?_
          rw [if_neg Bool.false_ne_true]
          refine Reads.accept_none (fun h => by cases h) ?_
          rw [if_neg Bool.false_ne_true]
          exact Reads.expect (Reads.pure ⟨rfl, rfl, rfl⟩)
      | some body =>
          have hbody := helse body rfl
          refine Loops.ended ?_ fun hnil => by cases hnil
          refine Reads.accept_none (fun h => by cases h) ?_
          rw [if_neg Bool.false_ne_true]
          refine Reads.accept_some ?_
          rw [if_pos rfl]
          refine Reads.map ((h.closedBlock hbody.1 hbody.2).imp fun body' hbody' => ?_)
          exact ⟨rfl, rfl, congrArg some hbody'⟩
  | cons a arms ih =>
      rw [everyArm, Bool.and_eq_true] at harms
      rw [levelsOfArms] at hn
      have hends := elseTokens_ends arms otherwise t
      rw [tokensOfArms, List.flatMap_cons, List.append_assoc]
      refine Loops.again (P := fun r => ∃ a', r = (a' :: before, none) ∧ a'.unlined = a.unlined)
        (Reads.accept_some ?_) (List.cons_ne_nil _ _) ?_
      · rw [if_pos rfl]
        exact Reads.map ((h.arm harms.1 (by omega) hends).imp fun a' ha' => ⟨rfl, a', rfl, ha'⟩)
      · rintro _ ⟨a', rfl, ha'⟩
        rw [← map_reverse_cons ha']
        exact ih harms.2 (by omega) (a' :: before)

theorem branch {a : Arm} {arms : List Arm} {otherwise : Option (List Stmt)}
    (helse : ∀ body, otherwise = some body →
      everyStmt (printChecks chunk) body = true ∧ levelsOfBlock body ≤ n)
    (harms : everyArm (printChecks chunk) (a :: arms) = true) (hn : levelsOfArms (a :: arms) ≤ n) :
    Reads l.rounds l.branch
      (joined .elseIfWord (tokensOfArms (a :: arms)) ++ elseTokens otherwise) t
      fun a' => a'.unlined = (Action.branch (a :: arms) otherwise).unlined := by
  rw [everyArm, Bool.and_eq_true] at harms
  rw [levelsOfArms] at hn
  have hends := elseTokens_ends arms otherwise t
  rw [tokensOfArms, joined, List.append_assoc]
  unfold Level.branch
  refine Reads.bind (h.arm harms.1 (by omega) hends) fun a' ha' => ?_
  refine Reads.bind_nil (h.arms helse harms.2 (by omega) [a'] _ (Nat.le_refl _)) fun r hr => ?_
  refine Reads.pure ?_
  rw [Action.unlined_branch, Action.unlined_branch, unlinedArms_eq, unlinedArms_eq, hr.1, hr.2]
  rw [List.map_cons, ← ha']
  rfl

theorem loopStep? {step : Option Expr}
    (hstep : ∀ e, step = some e → e.every (printChecks chunk) = true ∧ e.levels ≤ n)
    (ht : t.endsExpr = true) (hcomma : t ≠ .mark .comma) :
    Reads l.rounds l.loopStep? (stepTokens step) t
      fun step' => step'.map Expr.unlined = step.map Expr.unlined := by
  unfold Level.loopStep?
  cases step with
  | none =>
      refine Reads.accept_none hcomma ?_
      rw [if_neg Bool.false_ne_true]
      exact Reads.pure rfl
  | some e =>
      have he := hstep e rfl
      refine Reads.accept_some ?_
      rw [if_pos rfl]
      refine Reads.map ((h.expr he.1 he.2 ht).imp fun e' he' => ?_)
      exact congrArg some (Measured.unlined_of_seen he')

theorem countLoop {counter : String} {start limit : Expr} {step : Option Expr} {body : List Stmt}
    (hstart : start.every (printChecks chunk) = true ∧ start.levels ≤ n)
    (hlimit : limit.every (printChecks chunk) = true ∧ limit.levels ≤ n)
    (hstep : ∀ e, step = some e → e.every (printChecks chunk) = true ∧ e.levels ≤ n)
    (hbody : everyStmt (printChecks chunk) body = true ∧ levelsOfBlock body ≤ n) :
    Reads l.rounds (l.countLoop counter)
      (start.tokens ++ .mark .comma :: (limit.tokens ++ (stepTokens step ++
        .mark .doWord :: (blockTokens body ++ [.mark .endWord])))) t
      fun a' => a'.unlined = (Action.countLoop counter start limit step body).unlined := by
  unfold Level.countLoop
  refine Reads.bind (h.expr hstart.1 hstart.2 rfl) fun start' hstart' => Reads.expect ?_
  have hends : ((stepTokens step ++ Token.mark .doWord ::
      (blockTokens body ++ [Token.mark .endWord])).headD t).endsExpr = true := by
    cases step <;> rfl
  refine Reads.bind (h.expr hlimit.1 hlimit.2 hends) fun limit' hlimit' => ?_
  refine Reads.bind (h.loopStep? hstep rfl fun h => by cases h) fun step' hstep' => ?_
  refine Reads.expect (Reads.map ?_)
  refine (h.closedBlock hbody.1 hbody.2).imp fun body' hbody' => ?_
  rw [Action.unlined_countLoop, Action.unlined_countLoop, Measured.unlined_of_seen hstart',
    Measured.unlined_of_seen hlimit', hstep', hbody']

theorem eachLoop {first : String} {names : List String} {exprs : List Expr} {body : List Stmt}
    (hsome : exprs ≠ [])
    (hexprs : everyExpr (printChecks chunk) exprs = true ∧ levelsOfExprs exprs ≤ n)
    (hbody : everyStmt (printChecks chunk) body = true ∧ levelsOfBlock body ≤ n) :
    Reads l.rounds (l.eachLoop first)
      ((names.map nameTokens).flatMap (.mark .comma :: ·) ++ .mark .inWord ::
        (joined .comma (tokensOfExprs exprs) ++
          .mark .doWord :: (blockTokens body ++ [.mark .endWord]))) t
      fun a' => a'.unlined = (Action.eachLoop (first :: names) exprs body).unlined := by
  unfold Level.eachLoop
  refine Reads.bind (l.reads_moreNames first names fun h => by cases h) ?_
  rintro _ rfl
  refine Reads.expect (Reads.bind (h.exprs hsome hexprs.1 hexprs.2 rfl fun h => by cases h) ?_)
  intro exprs' hexprs'
  refine Reads.expect (Reads.map ?_)
  refine (h.closedBlock hbody.1 hbody.2).imp fun body' hbody' => ?_
  rw [Action.unlined, Action.unlined, unlinedExprs_of_seen hexprs', hbody']

theorem forLoop_count {counter : String} {start limit : Expr} {step : Option Expr}
    {body : List Stmt} (hstart : start.every (printChecks chunk) = true ∧ start.levels ≤ n)
    (hlimit : limit.every (printChecks chunk) = true ∧ limit.levels ≤ n)
    (hstep : ∀ e, step = some e → e.every (printChecks chunk) = true ∧ e.levels ≤ n)
    (hbody : everyStmt (printChecks chunk) body = true ∧ levelsOfBlock body ≤ n) :
    Reads l.rounds l.forLoop
      (.name counter :: .mark .assign :: (start.tokens ++ .mark .comma :: (limit.tokens ++
        (stepTokens step ++ .mark .doWord :: (blockTokens body ++ [.mark .endWord]))))) t
      fun a' => a'.unlined = (Action.countLoop counter start limit step body).unlined := by
  unfold Level.forLoop
  refine Reads.name (Reads.accept_some ?_)
  rw [if_pos rfl]
  exact h.countLoop hstart hlimit hstep hbody

theorem forLoop_each {names : List String} {exprs : List Expr} {body : List Stmt}
    (hnames : names ≠ []) (hsome : exprs ≠ [])
    (hexprs : everyExpr (printChecks chunk) exprs = true ∧ levelsOfExprs exprs ≤ n)
    (hbody : everyStmt (printChecks chunk) body = true ∧ levelsOfBlock body ≤ n) :
    Reads l.rounds l.forLoop
      (joined .comma (names.map nameTokens) ++ .mark .inWord ::
        (joined .comma (tokensOfExprs exprs) ++
          .mark .doWord :: (blockTokens body ++ [.mark .endWord]))) t
      fun a' => a'.unlined = (Action.eachLoop names exprs body).unlined := by
  unfold Level.forLoop
  cases names with
  | nil => exact (hnames rfl).elim
  | cons first names =>
      refine Reads.name (Reads.accept_none ?_ ?_)
      · cases names <;> exact fun h => by cases h
      · rw [if_neg Bool.false_ne_true]
        exact h.eachLoop hsome hexprs hbody

/-- A function under a path of names, of which the last can be that of a method. -/
theorem definition_path {root : String} {names : List String} {method : Option String}
    {f : Function} (hroot : names.head? = some root)
    (hname : f.name = String.intercalate "." (names ++ method.toList)) (hchunk : f.chunk = chunk)
    (hself : method.isSome = true → f.params.head? = some "self")
    (hf : f.every (printChecks chunk) = true) (hn : f.levels ≤ n) (line : Nat) :
    Reads l.rounds (l.definition chunk line)
      (joined .dot (names.map nameTokens) ++
        (methodTokens method ++ f.tokens method.isSome)) t
      fun a' => a'.unlined =
        (Action.define root (names ++ method.toList) method.isSome f).unlined := by
  have hsome : names ≠ [] := by
    rintro rfl
    cases hroot
  have hdot : (methodTokens method ++ f.tokens method.isSome).headD t ≠ .mark .dot := by
    cases method with
    | none =>
        intro heq
        cases (f.begins false t).symm.trans heq
    | some name => exact fun h => by cases h
  have hparen : (f.tokens method.isSome).headD t ≠ .mark .colon := by
    rw [f.begins]
    exact fun h => by cases h
  have hread := h.functionBody (t := t) hf hchunk hn hself line
  unfold Level.definition
  refine Reads.bind (Reads.names hsome hdot) ?_
  rintro _ rfl
  refine Reads.bind (l.reads_methodName? hparen) ?_
  rintro _ rfl
  rw [hname] at hread
  refine Reads.map (hread.imp fun f' hf' => ?_)
  rw [Action.unlined, Action.unlined, hf', List.headD_eq_head?_getD, hroot]
  rfl

theorem definition {root : String} {path : List String} {isMethod : Bool} {f : Function}
    (hunder : definedUnder chunk root path isMethod f = true)
    (hf : f.every (printChecks chunk) = true) (hn : f.levels ≤ n) (line : Nat) :
    Reads l.rounds (l.definition chunk line) (pathTokens path isMethod ++ f.tokens isMethod) t
      fun a' => a'.unlined = (Action.define root path isMethod f).unlined := by
  simp only [definedUnder, Bool.and_eq_true, Bool.or_eq_true, beq_iff_eq, decide_eq_true_eq]
    at hunder
  rcases hunder with ⟨⟨hroot, hname, hchunk⟩, hmethod⟩
  have hlength : isMethod = true → 2 ≤ path.length := by
    rintro rfl
    exact (hmethod.resolve_left fun h => by cases h).1
  have hself : isMethod = true → f.params.head? = some "self" := by
    rintro rfl
    exact (hmethod.resolve_left fun h => by cases h).2
  rcases path_cases hroot hlength with ⟨names, method, rfl, rfl, hnames⟩
  rw [pathTokens_eq, List.append_assoc]
  exact h.definition_path hnames hname hchunk hself hf hn line

theorem declaration_function {f : Function} (hf : f.every (printChecks chunk) = true)
    (hchunk : f.chunk = chunk) (hn : f.levels ≤ n) (line : Nat) :
    Reads l.rounds (l.declaration chunk line)
      (.mark .functionWord :: .name f.name :: f.tokens false) t
      fun a' => a'.unlined = (Action.declareFunction f.name f).unlined := by
  unfold Level.declaration
  refine Reads.accept_some ?_
  rw [if_pos rfl]
  refine Reads.name (Reads.map ?_)
  refine (h.functionBody hf hchunk hn (fun h => (Bool.false_ne_true h).elim) line).imp ?_
  intro f' hf'
  rw [Action.unlined, Action.unlined, hf']

theorem initialValues {values : List Expr} (hvalues : everyExpr (printChecks chunk) values = true)
    (hn : levelsOfExprs values ≤ n) (ht : t.endsStmt = true) :
    Reads l.rounds l.initialValues (valueTokens values) t
      fun values' => unlinedExprs values' = unlinedExprs values := by
  unfold Level.initialValues
  cases values with
  | nil =>
      refine Reads.accept_none (Token.ne_mark Token.endsStmt ht rfl) ?_
      rw [if_neg Bool.false_ne_true]
      exact Reads.pure rfl
  | cons value values =>
      refine Reads.accept_some ?_
      rw [if_pos rfl]
      refine Reads.map ((h.exprs (List.cons_ne_nil _ _) hvalues hn (Token.endsExpr_of_endsStmt ht)
        (Token.ne_mark Token.endsStmt ht rfl)).imp fun values' hvalues' => ?_)
      exact unlinedExprs_of_seen hvalues'

theorem declaration {names : List String} {values : List Expr} (hsome : names ≠ [])
    (hvalues : everyExpr (printChecks chunk) values = true) (hn : levelsOfExprs values ≤ n)
    (ht : t.endsStmt = true) (line : Nat) :
    Reads l.rounds (l.declaration chunk line)
      (joined .comma (names.map nameTokens) ++ valueTokens values) t
      fun a' => a'.unlined = (Action.declare names values).unlined := by
  have hcomma : (valueTokens values).headD t ≠ .mark .comma := by
    cases values with
    | nil => exact Token.ne_mark Token.endsStmt ht rfl
    | cons value values => exact fun h => by cases h
  have hfunction : (joined .comma (names.map nameTokens) ++ valueTokens values).headD t ≠
      .mark .functionWord := by
    cases names with
    | nil => exact (hsome rfl).elim
    | cons name names => exact fun h => by cases h
  unfold Level.declaration
  refine Reads.accept_none hfunction ?_
  rw [if_neg Bool.false_ne_true]
  refine Reads.bind (Reads.names hsome hcomma) ?_
  rintro _ rfl
  refine Reads.map ((h.initialValues hvalues hn ht).imp fun values' hvalues' => ?_)
  rw [Action.unlined, Action.unlined, hvalues']

/-- The targets of an assignment, behind the first. -/
theorem moreTargets {first : Measured} {target : Expr} {targets : List Expr}
    (hfirst : first.expr.unlined = target.unlined)
    (htargets : ∀ e ∈ targets, e.isAssignable = true ∧ e.every (printChecks chunk) = true ∧
      e.levels ≤ n + 1) :
    Reads l.rounds (l.moreTargets first)
      ((tokensOfExprs targets).flatMap (.mark .comma :: ·)) (.mark .assign)
      fun targets' => targets'.map (·.expr.unlined) = (target :: targets).map Expr.unlined := by
  unfold Level.moreTargets
  cases targets with
  | nil =>
      refine Reads.accept_none (fun h => by cases h) ?_
      rw [if_neg Bool.false_ne_true]
      refine Reads.pure ?_
      rw [List.map_cons, hfirst]
      rfl
  | cons target₂ targets =>
      refine Reads.accept_some ?_
      rw [if_pos rfl]
      have hread : Reads l.rounds (Parser.separated l.rounds .comma l.suffixed)
          (joined .comma ((target₂ :: targets).map Expr.tokens)) (.mark .assign)
          fun targets' => targets'.map (·.expr.unlined) = (target₂ :: targets).map Expr.unlined := by
        refine Reads.separated (List.cons_ne_nil _ _) (fun e he t' ht' => ?_) fun h => by cases h
        rcases htargets e he with ⟨hassignable, hevery, hlevels⟩
        have hsuffix : t'.isSuffix = false := by
          rcases ht' with rfl | rfl <;> rfl
        exact (h.suffixed (Expr.isHead_of_isAssignable hassignable) hevery hlevels hsuffix).imp
          fun e' he' => Measured.unlined_of_seen he'
      rw [← tokensOfExprs_eq] at hread
      refine Reads.map (hread.imp fun targets' htargets' => ?_)
      rw [List.map_cons, List.map_cons, hfirst, htargets']

/-- An assignment, behind its first target. -/
theorem assignment {first : Measured} {target : Expr} {targets values : List Expr}
    (hfirst : first.expr.unlined = target.unlined) (htarget : target.isAssignable = true)
    (htargets : ∀ e ∈ targets, e.isAssignable = true ∧ e.every (printChecks chunk) = true ∧
      e.levels ≤ n + 1)
    (hsome : values ≠ []) (hvalues : everyExpr (printChecks chunk) values = true)
    (hn : levelsOfExprs values ≤ n) (ht : t.endsStmt = true) :
    Reads l.rounds (l.assignment first)
      ((tokensOfExprs targets).flatMap (.mark .comma :: ·) ++
        .mark .assign :: joined .comma (tokensOfExprs values)) t
      fun a' => a'.unlined = (Action.assign (target :: targets) values).unlined := by
  unfold Level.assignment
  refine Reads.bind (h.moreTargets hfirst htargets) fun targets' htargets' => ?_
  -- Whether a value can be stored in a target does not depend on the lines in it.
  have hassignable : targets'.all (·.expr.isAssignable) = true := by
    have hall : (targets'.map (·.expr.unlined)).all Expr.isAssignable = true := by
      rw [htargets', List.all_map]
      refine List.all_eq_true.mpr fun e he => ?_
      rw [Function.comp_apply, Expr.isAssignable_unlined]
      rcases List.mem_cons.mp he with rfl | he
      · exact htarget
      · exact (htargets e he).1
    rw [List.all_map] at hall
    simpa only [Function.comp_def, Expr.isAssignable_unlined] using hall
  rw [if_pos hassignable]
  have hsame : unlinedExprs (targets'.map (·.expr)) = unlinedExprs (target :: targets) := by
    rw [unlinedExprs_eq, unlinedExprs_eq, List.map_map]
    exact htargets'
  refine Reads.expect (Reads.map ?_)
  refine (h.exprs hsome hvalues hn (Token.endsExpr_of_endsStmt ht)
    (Token.ne_mark Token.endsStmt ht rfl)).imp fun values' hvalues' => ?_
  rw [Action.unlined, Action.unlined, unlinedExprs_of_seen hvalues', hsame]

theorem exprStatement_assign {target : Expr} {targets values : List Expr}
    (htargets : ∀ e ∈ target :: targets, e.isAssignable = true ∧
      e.every (printChecks chunk) = true ∧ e.levels ≤ n + 1)
    (hsome : values ≠ []) (hvalues : everyExpr (printChecks chunk) values = true)
    (hn : levelsOfExprs values ≤ n) (ht : t.endsStmt = true) :
    Reads l.rounds l.exprStatement (Action.assign (target :: targets) values).tokens t
      fun a' => a'.unlined = (Action.assign (target :: targets) values).unlined := by
  rcases List.forall_mem_cons.mp htargets with ⟨⟨htarget, hevery, hlevels⟩, hmore⟩
  rw [Action.tokens, tokensOfExprs, joined, List.append_assoc]
  unfold Level.exprStatement
  have hnext : ((tokensOfExprs targets).flatMap (Token.mark .comma :: ·) ++
        Token.mark .assign :: joined .comma (tokensOfExprs values)).headD t = .mark .assign ∨
      ((tokensOfExprs targets).flatMap (Token.mark .comma :: ·) ++
        Token.mark .assign :: joined .comma (tokensOfExprs values)).headD t = .mark .comma := by
    cases targets with
    | nil => exact .inl rfl
    | cons target₂ targets => exact .inr rfl
  have hsuffix : (((tokensOfExprs targets).flatMap (Token.mark .comma :: ·) ++
      Token.mark .assign :: joined .comma (tokensOfExprs values)).headD t).isSuffix = false := by
    rcases hnext with hnext | hnext <;> rw [hnext] <;> rfl
  refine Reads.bind (h.suffixed (Expr.isHead_of_isAssignable htarget) hevery hlevels hsuffix) ?_
  intro first hfirst
  have hread := h.assignment (Measured.unlined_of_seen hfirst) htarget hmore hsome hvalues hn ht
  refine Reads.next fun line => ?_
  rcases hnext with hnext | hnext <;> rw [hnext] <;> exact hread

theorem exprStatement_call {e : Expr} (hmulti : e.isMulti = true)
    (he : e.every (printChecks chunk) = true) (hn : e.levels ≤ n + 1) (ht : t.endsStmt = true) :
    Reads l.rounds l.exprStatement e.tokens t
      fun a' => a'.unlined = (Action.call e).unlined := by
  unfold Level.exprStatement
  have hsuffix := Token.isSuffix_of_endsExpr (Token.endsExpr_of_endsStmt ht)
  refine Reads.bind_nil (h.suffixed (Expr.isHead_of_isMulti hmulti) he hn hsuffix) ?_
  intro e' he'
  have hsame := Measured.unlined_of_seen he'
  have hmulti' : e'.expr.isMulti = true := by
    rw [← Expr.isMulti_unlined, hsame, Expr.isMulti_unlined, hmulti]
  refine Reads.next fun line => ?_
  rw [List.headD_nil]
  have hread : Reads l.rounds (Pure.pure (.call e'.expr) : Parser Action) [] t
      fun a' => a'.unlined = (Action.call e).unlined := by
    refine Reads.pure ?_
    rw [Action.unlined, Action.unlined, hsame]
  simp only [hmulti', if_true]
  cases t with
  | mark m => cases m <;> first | exact hread | cases ht
  | _ => exact hread

theorem whileLoop {condition : Expr} {body : List Stmt}
    (hcondition : condition.every (printChecks chunk) = true ∧ condition.levels ≤ n)
    (hbody : everyStmt (printChecks chunk) body = true ∧ levelsOfBlock body ≤ n) :
    Reads l.rounds l.whileLoop
      (condition.tokens ++ .mark .doWord :: (blockTokens body ++ [.mark .endWord])) t
      fun a' => a'.unlined = (Action.whileLoop condition body).unlined := by
  unfold Level.whileLoop
  refine Reads.bind (h.expr hcondition.1 hcondition.2 rfl) fun condition' hcondition' => ?_
  refine Reads.expect (Reads.map ?_)
  refine (h.closedBlock hbody.1 hbody.2).imp fun body' hbody' => ?_
  rw [Action.unlined, Action.unlined, Measured.unlined_of_seen hcondition', hbody']

theorem repeatLoop {condition : Expr} {body : List Stmt}
    (hcondition : condition.every (printChecks chunk) = true ∧ condition.levels ≤ n)
    (hbody : everyStmt (printChecks chunk) body = true ∧ levelsOfBlock body ≤ n)
    (ht : t.endsExpr = true) :
    Reads l.rounds l.repeatLoop (blockTokens body ++ .mark .untilWord :: condition.tokens) t
      fun a' => a'.unlined = (Action.repeatLoop body condition).unlined := by
  unfold Level.repeatLoop
  refine Reads.bind (h.block hbody.1 hbody.2 rfl) fun body' hbody' => ?_
  refine Reads.expect (Reads.map ?_)
  refine (h.expr hcondition.1 hcondition.2 ht).imp fun condition' hcondition' => ?_
  rw [Action.unlined, Action.unlined, Measured.unlined_of_seen hcondition', hbody']

theorem action {a : Action} (hreturn : ∀ values, a ≠ .returnValues values)
    (ha : a.every (printChecks chunk) = true) (hn : a.levels ≤ n + 1) (ht : t.endsStmt = true)
    (line : Nat) :
    Reads l.rounds (l.action chunk ⟨a.tokens.headD t, line⟩) a.tokens t
      fun a' => a'.unlined = a.unlined := by
  have hshaped := Action.shaped_of_every ha
  have hexpr := Token.endsExpr_of_endsStmt ht
  cases a with
  | declare names values =>
      rw [Action.every, Bool.and_eq_true] at ha
      rw [Action.levels] at hn
      rw [Action.tokens_declare]
      refine Reads.advance (fun h => by cases h) (h.declaration ?_ ha.2 (by omega) ht line)
      rintro rfl
      cases hshaped
  | assign targets values =>
      simp only [Action.shaped, Bool.and_eq_true, Bool.not_eq_true', List.isEmpty_eq_false_iff,
        List.all_eq_true] at hshaped
      rw [Action.every, Bool.and_eq_true, Bool.and_eq_true] at ha
      rw [Action.levels] at hn
      have htargets : ∀ e ∈ targets, e.isAssignable = true ∧
          e.every (printChecks chunk) = true ∧ e.levels ≤ n + 1 := by
        intro e he
        have hlevels := le_levelsOfExprs he
        exact ⟨hshaped.1.2 e he, everyExpr_iff.mp ha.2.1 e he, by omega⟩
      cases targets with
      | nil => exact (hshaped.1.1 rfl).elim
      | cons target targets =>
          have hfirst : ((Action.assign (target :: targets) values).tokens.headD t).startsHead =
              true := by
            rcases htargets target List.mem_cons_self with ⟨hassignable, hevery, _⟩
            rw [Action.tokens, tokensOfExprs, joined, List.append_assoc]
            exact ((Expr.begins_head (Expr.isHead_of_isAssignable hassignable) hevery).append
              _).headD t
          rw [action_of_startsHead l hfirst]
          exact h.exprStatement_assign htargets hshaped.2 ha.2.2 (by omega) ht
  | call e =>
      rw [Action.every, Bool.and_eq_true] at ha
      rw [Action.levels] at hn
      have hfirst := (Expr.begins_head (Expr.isHead_of_isMulti hshaped) ha.2).headD t
      rw [Action.tokens, action_of_startsHead l hfirst]
      exact h.exprStatement_call hshaped ha.2 hn ht
  | block body =>
      rw [Action.every, Bool.and_eq_true] at ha
      rw [Action.levels] at hn
      rw [Action.tokens]
      refine Reads.advance (fun h => by cases h) (Reads.map ?_)
      refine (h.closedBlock ha.2 (by omega)).imp fun body' hbody' => ?_
      rw [Action.unlined, Action.unlined, hbody']
  | branch arms otherwise =>
      have hparts := Action.branch_parts ha hn
      cases arms with
      | nil => cases hshaped
      | cons a arms =>
          rw [Action.tokens_branch]
          exact Reads.advance (fun h => by cases h) (h.branch hparts.2.2 hparts.1 hparts.2.1)
  | whileLoop condition body =>
      rw [Action.every, Bool.and_eq_true, Bool.and_eq_true] at ha
      rw [Action.levels] at hn
      rw [Action.tokens]
      exact Reads.advance (fun h => by cases h)
        (h.whileLoop ⟨ha.2.1, by omega⟩ ⟨ha.2.2, by omega⟩)
  | repeatLoop body condition =>
      rw [Action.every, Bool.and_eq_true, Bool.and_eq_true] at ha
      rw [Action.levels] at hn
      rw [Action.tokens]
      exact Reads.advance (fun h => by cases h)
        (h.repeatLoop ⟨ha.2.2, by omega⟩ ⟨ha.2.1, by omega⟩ hexpr)
  | countLoop counter start limit step body =>
      have hparts := Action.countLoop_parts ha hn
      rw [Action.tokens_countLoop]
      exact Reads.advance (fun h => by cases h)
        (h.forLoop_count hparts.1 hparts.2.1 hparts.2.2.1 hparts.2.2.2)
  | eachLoop names exprs body =>
      simp only [Action.shaped, Bool.and_eq_true, Bool.not_eq_true', List.isEmpty_eq_false_iff]
        at hshaped
      rw [Action.every, Bool.and_eq_true, Bool.and_eq_true] at ha
      rw [Action.levels] at hn
      rw [Action.tokens]
      exact Reads.advance (fun h => by cases h)
        (h.forLoop_each hshaped.1 hshaped.2 ⟨ha.2.1, by omega⟩ ⟨ha.2.2, by omega⟩)
  | define root path isMethod f =>
      rw [Action.every, Bool.and_eq_true] at ha
      rw [Action.levels] at hn
      rw [Action.tokens]
      exact Reads.advance (fun h => by cases h) (h.definition hshaped ha.2 (by omega) line)
  | declareFunction name f =>
      simp only [Action.shaped, Bool.and_eq_true, beq_iff_eq] at hshaped
      rw [Action.every, Bool.and_eq_true] at ha
      rw [Action.levels] at hn
      rw [Action.tokens, ← hshaped.1]
      exact Reads.advance (fun h => by cases h)
        (h.declaration_function ha.2 hshaped.2 (by omega) line)
  | returnValues values => exact (hreturn values rfl).elim
  | breakLoop =>
      rw [Action.tokens]
      exact Reads.advance (fun h => by cases h) (Reads.pure rfl)

theorem statementBelow {s : Stmt} (hs : s.every (printChecks chunk) = true)
    (hreturn : s.isReturn = false) (hn : s.levels ≤ n + 1) (ht : t.endsStmt = true) :
    Reads l.rounds (l.statementBelow chunk) s.tokens t fun s' => s'.unlined = s.unlined := by
  rcases s with ⟨line, a⟩
  rw [Stmt.tokens]
  unfold Level.statementBelow
  refine Reads.next fun line' => Reads.map ?_
  have hno : ∀ values, a ≠ .returnValues values := by
    rintro values rfl
    cases hreturn
  refine (h.action hno hs hn ht line').imp fun a' ha' => ?_
  rw [Stmt.unlined, Stmt.unlined, ha']

end Complete

end Level

end Script

end PixelEffects
