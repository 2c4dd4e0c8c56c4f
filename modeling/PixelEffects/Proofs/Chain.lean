import PixelEffects.Chain.Run
import PixelEffects.Proofs.Effect.Failure
import PixelEffects.Proofs.Effect.Preload

/-!
# Chains One After Another

What a chain does that is put together from two.

A chain does two things besides giving the image of one stage to the next: it looks at the flag
before each stage, and it says of an error in which stage it arose. Without them it is a fold over
its stages. As long as nobody sets the flag, a chain has the result of the fold; and it fails where
the fold fails, with the error of the fold wrapped once. So two chains follow one another as two
folds do, and only the numbers of the stages in the second one are different.

Which stage fails is said with everything that happened until then: the stages before it had
results, and it failed on the last of those. No stage behind it is mentioned, and none matters.

## Main definitions

* `Stage.through`: The stages of a chain without numbers and without a flag.
* `Stage.Breaks`: The stage that is the first to fail, and its error.
* `Chain.append`, `Chain.single`: Two chains as one, and a chain of one stage.

## Theorems

* `Stage.through_or_breaks`: Stages have a result, or one of them is the first to fail.
* `Stage.runAll_of_through`, `Stage.runAll_of_breaks`: What numbered stages do in both cases.
* `Chain.run_appended`: Two chains as one.
-/

namespace PixelEffects

open Operation

namespace Stage

/-- Stages that are run one after the other on an image. -/
def through (loader : EffectLoader) (options : ApplyOptions) (stages : List Stage)
    (image : Image) : Operation Image :=
  stages.foldlM (fun image stage => stage.run loader options image) image

/-- The stage at a place is the first one that fails. Those before it have results, and on the last
    of these it fails with an error. -/
structure Breaks (loader : EffectLoader) (options : ApplyOptions) (stages : List Stage)
    (image : Image) (session : Session) (k : Nat) (stage : Stage) (e : Error)
    (session' : Session) : Prop where
  found : stages[k]? = some stage
  failed : ∃ mid between,
    through loader options (stages.take k) image session = .ok mid between ∧
      stage.run loader options mid between = .error e session'

variable {loader : EffectLoader} {options : ApplyOptions} {stage : Stage} {stages : List Stage}
  {image out : Image} {session session' : Session} {e : Error}

/-! ## One stage -/

/-- A stage leaves the flag unset, and fails with an error of its effect. -/
theorem run_failsWith (loader : EffectLoader) (hseq : options.parallel = false) (stage : Stage)
    (image : Image) :
    (stage.run loader options image).FailsWith Error.OfEffect :=
  failsWith_bind (loader.load_failsWith stage.effectId stage.params)
    fun effect => effect.apply_failsWith hseq image

/-- An error of an effect is wrapped. -/
theorem wrap_of_ofEffect (h : e.OfEffect) (index : Nat) :
    stage.wrap index e = .stage index stage.effectId e := by
  cases e with
  | cancelled => exact h.elim
  | _ => rfl

theorem unset_of_run (hseq : options.parallel = false) (hflag : CancelFlag.Unset session.cancel)
    (h : stage.run loader options image session = .ok out session') :
    CancelFlag.Unset session'.cancel := by
  have hafter := run_failsWith loader hseq stage image session hflag
  rw [h] at hafter
  exact hafter

theorem ofEffect_of_run (hseq : options.parallel = false)
    (hflag : CancelFlag.Unset session.cancel)
    (h : stage.run loader options image session = .error e session') : e.OfEffect := by
  have hafter := run_failsWith loader hseq stage image session hflag
  rw [h] at hafter
  exact hafter

/-! ## Stages without numbers -/

theorem through_nil : through loader options [] image session = .ok image session :=
  rfl

theorem through_cons {between : Session} {mid : Image}
    (h : stage.run loader options image session = .ok mid between) :
    through loader options (stage :: stages) image session =
      through loader options stages mid between := by
  unfold through
  rw [List.foldlM_cons, bind_of_ok h]

theorem through_append {others : List Stage} {between : Session} {mid : Image}
    (h : through loader options stages image session = .ok mid between) :
    through loader options (stages ++ others) image session =
      through loader options others mid between := by
  unfold through at h ⊢
  rw [List.foldlM_append, bind_of_ok h]

theorem unset_of_through (hseq : options.parallel = false)
    (hflag : CancelFlag.Unset session.cancel)
    (h : through loader options stages image session = .ok out session') :
    CancelFlag.Unset session'.cancel := by
  have hafter := failsWith_foldlM (fun image stage => run_failsWith loader hseq stage image) stages
    image session hflag
  unfold through at h
  rw [h] at hafter
  exact hafter

namespace Breaks

variable {k : Nat} {failing : Stage}

theorem here (h : stage.run loader options image session = .error e session') :
    Breaks loader options (stage :: stages) image session 0 stage e session' :=
  ⟨rfl, image, session, through_nil, h⟩

theorem later {between : Session} {mid : Image}
    (h : stage.run loader options image session = .ok mid between)
    (hrest : Breaks loader options stages mid between k failing e session') :
    Breaks loader options (stage :: stages) image session (k + 1) failing e session' := by
  rcases hrest.failed with ⟨mid', between', hbefore, hfailed⟩
  refine ⟨hrest.found, mid', between', ?_, hfailed⟩
  rw [List.take_succ_cons, through_cons h]
  exact hbefore

theorem lt_length (h : Breaks loader options stages image session k failing e session') :
    k < stages.length :=
  (List.getElem?_eq_some_iff.mp h.found).1

/-- What comes behind the stage that fails may be anything. -/
theorem congr {others : List Stage}
    (h : Breaks loader options stages image session k failing e session')
    (hsame : others.take (k + 1) = stages.take (k + 1)) :
    Breaks loader options others image session k failing e session' := by
  have htake : others.take k = stages.take k := by
    have hshorter := congrArg (List.take k) hsame
    rwa [List.take_take, List.take_take, Nat.min_eq_left (Nat.le_succ k)] at hshorter
  refine ⟨?_, ?_⟩
  · have hfound := h.found
    rw [← List.getElem?_take_of_lt (Nat.lt_succ_self k), ← hsame,
      List.getElem?_take_of_lt (Nat.lt_succ_self k)] at hfound
    exact hfound
  · rw [htake]
    exact h.failed

theorem append_left (h : Breaks loader options stages image session k failing e session')
    (others : List Stage) :
    Breaks loader options (stages ++ others) image session k failing e session' :=
  h.congr (List.take_append_of_le_length h.lt_length)

theorem append_right {others : List Stage} {between : Session} {mid : Image}
    (hbefore : through loader options others image session = .ok mid between)
    (h : Breaks loader options stages mid between k failing e session') :
    Breaks loader options (others ++ stages) image session (others.length + k) failing e
      session' := by
  rcases h.failed with ⟨mid', between', hthrough, hfailed⟩
  refine ⟨?_, mid', between', ?_, hfailed⟩
  · rw [List.getElem?_append_right (Nat.le_add_right _ k), Nat.add_sub_cancel_left]
    exact h.found
  · rw [List.take_length_add_append, through_append hbefore]
    exact hthrough

/-- The error of the stage that fails is one of its effect. -/
theorem ofEffect (h : Breaks loader options stages image session k failing e session')
    (hseq : options.parallel = false) (hflag : CancelFlag.Unset session.cancel) : e.OfEffect := by
  rcases h.failed with ⟨mid, between, hbefore, hfailed⟩
  exact ofEffect_of_run hseq (unset_of_through hseq hflag hbefore) hfailed

end Breaks

/-- Stages have a result, or one of them is the first to fail. -/
theorem through_or_breaks (loader : EffectLoader) (options : ApplyOptions) (stages : List Stage)
    (image : Image) (session : Session) :
    (∃ out session', through loader options stages image session = .ok out session') ∨
      ∃ k stage e session', Breaks loader options stages image session k stage e session' := by
  induction stages generalizing image session with
  | nil => exact .inl ⟨image, session, through_nil⟩
  | cons stage stages ih =>
      cases hrun : stage.run loader options image session with
      | error e session' => exact .inr ⟨0, stage, e, session', .here hrun⟩
      | ok mid between =>
          rw [through_cons hrun]
          rcases ih mid between with hthrough | ⟨k, failing, e, session', hbreaks⟩
          · exact .inl hthrough
          · exact .inr ⟨k + 1, failing, e, session', hbreaks.later hrun⟩

/-! ## Numbered stages -/

/-- A stage that has a result leaves it to the others. -/
theorem runAll_cons_ok {between : Session} {mid : Image}
    (hflag : CancelFlag.Unset session.cancel)
    (h : stage.run loader options image session = .ok mid between) (index : Nat) :
    runAll loader options index (stage :: stages) image session =
      runAll loader options (index + 1) stages mid between := by
  rw [runAll, bind_of_ok (checkCancel_unset hflag), bind_of_ok (mapError_of_ok h)]

/-- A stage that fails is the end. -/
theorem runAll_cons_error (hflag : CancelFlag.Unset session.cancel)
    (h : stage.run loader options image session = .error e session') (he : e.OfEffect)
    (index : Nat) : runAll loader options index (stage :: stages) image session =
      .error (.stage index stage.effectId e) session' := by
  rw [runAll, bind_of_ok (checkCancel_unset hflag), bind_of_error (mapError_of_error h),
    wrap_of_ofEffect he]

/-- Numbered stages on which the fold has got somewhere go on from there. -/
theorem runAll_append {others : List Stage} {between : Session} {mid : Image}
    (hseq : options.parallel = false) (hflag : CancelFlag.Unset session.cancel)
    (h : through loader options stages image session = .ok mid between) (index : Nat) :
    runAll loader options index (stages ++ others) image session =
      runAll loader options (index + stages.length) others mid between := by
  induction stages generalizing image session index with
  | nil =>
      rw [through_nil] at h
      cases h
      rfl
  | cons stage stages ih =>
      cases hrun : stage.run loader options image session with
      | error e session' =>
          unfold through at h
          rw [List.foldlM_cons, bind_of_error hrun] at h
          cases h
      | ok mid' between' =>
          rw [through_cons hrun] at h
          rw [List.cons_append, runAll_cons_ok hflag hrun, ih (unset_of_run hseq hflag hrun) h,
            List.length_cons, Nat.add_assoc, Nat.add_comm 1]

theorem runAll_of_through (hseq : options.parallel = false)
    (hflag : CancelFlag.Unset session.cancel)
    (h : through loader options stages image session = .ok out session') (index : Nat) :
    runAll loader options index stages image session = .ok out session' := by
  rw [← List.append_nil stages, runAll_append hseq hflag h, runAll]
  rfl

theorem runAll_of_breaks {k : Nat} {failing : Stage} (hseq : options.parallel = false)
    (hflag : CancelFlag.Unset session.cancel)
    (h : Breaks loader options stages image session k failing e session') (index : Nat) :
    runAll loader options index stages image session =
      .error (.stage (index + k) failing.effectId e) session' := by
  rcases h.failed with ⟨mid, between, hbefore, hfailed⟩
  have hsplit : stages = stages.take k ++ failing :: stages.drop (k + 1) := by
    rcases List.getElem?_eq_some_iff.mp h.found with ⟨hk, hget⟩
    rw [← hget, List.getElem_cons_drop, List.take_append_drop]
  have hlength : (stages.take k).length = k := by
    rw [List.length_take, Nat.min_eq_left (Nat.le_of_lt h.lt_length)]
  rw [hsplit, runAll_append hseq hflag hbefore, hlength]
  exact runAll_cons_error (unset_of_through hseq hflag hbefore) hfailed (h.ofEffect hseq hflag) _

end Stage

namespace Chain

open Stage

/-- One chain after another. -/
def append (first second : Chain) : Chain :=
  ⟨first.stages ++ second.stages, List.append_ne_nil_of_left_ne_nil first.nonempty _⟩

/-- A chain of one stage. -/
def single (stage : Stage) : Chain :=
  ⟨[stage], List.cons_ne_nil stage []⟩

variable {loader : EffectLoader} {options : ApplyOptions} {chain : Chain} {image out : Image}
  {session session' : Session}

/-- A chain has the result that its stages have. -/
theorem run_eq_ok_iff (hseq : options.parallel = false) (hflag : CancelFlag.Unset session.cancel) :
    chain.run loader options image session = .ok out session' ↔
      through loader options chain.stages image session = .ok out session' := by
  refine ⟨fun h => ?_, fun h => runAll_of_through hseq hflag h 1⟩
  unfold run at h
  rcases through_or_breaks loader options chain.stages image session with
    ⟨out', session'', hthrough⟩ | ⟨k, stage, e, session'', hbreaks⟩
  · rw [runAll_of_through hseq hflag hthrough] at h
    rw [hthrough, h]
  · rw [runAll_of_breaks hseq hflag hbreaks] at h
    cases h

/-- A chain fails with the number of the first stage that fails and the error of that stage. -/
theorem run_eq_error_iff {e : Error} (hseq : options.parallel = false)
    (hflag : CancelFlag.Unset session.cancel) :
    chain.run loader options image session = .error e session' ↔
      ∃ k stage inner, Breaks loader options chain.stages image session k stage inner session' ∧
        e = .stage (k + 1) stage.effectId inner ∧ inner.OfEffect := by
  unfold run
  refine ⟨fun h => ?_, fun h => ?_⟩
  · rcases through_or_breaks loader options chain.stages image session with
      ⟨out', session'', hthrough⟩ | ⟨k, stage, inner, session'', hbreaks⟩
    · rw [runAll_of_through hseq hflag hthrough] at h
      cases h
    · rw [runAll_of_breaks hseq hflag hbreaks, Nat.add_comm] at h
      cases h
      exact ⟨k, stage, inner, hbreaks, rfl, hbreaks.ofEffect hseq hflag⟩
  · rcases h with ⟨k, stage, inner, hbreaks, rfl, _⟩
    rw [runAll_of_breaks hseq hflag hbreaks, Nat.add_comm]

/-- A chain of one stage is loading its effect and applying it, with the number of the stage at the
    error. -/
theorem run_single (hseq : options.parallel = false) (hflag : CancelFlag.Unset session.cancel)
    (stage : Stage) : (single stage).run loader options image session =
      mapError (.stage 1 stage.effectId)
        (loader.load stage.effectId stage.params >>= fun effect => effect.apply options image)
        session := by
  have hbody : (loader.load stage.effectId stage.params >>=
      fun effect => effect.apply options image) = stage.run loader options image := rfl
  rw [hbody]
  cases hrun : stage.run loader options image session with
  | ok out session' =>
      rw [mapError_of_ok hrun]
      exact runAll_cons_ok hflag hrun 1
  | error e session' =>
      rw [mapError_of_error hrun]
      exact runAll_cons_error hflag hrun (ofEffect_of_run hseq hflag hrun) 1

section Append

variable {first second : Chain} {mid : Image} {between : Session} {k : Nat} {stage : Stage}
  {inner : Error}

/-- Where the first chain has a result, both chains have the result of the second one on it. -/
theorem run_append_of_ok (hseq : options.parallel = false)
    (hflag : CancelFlag.Unset session.cancel)
    (hfirst : first.run loader options image session = .ok mid between)
    (hsecond : second.run loader options mid between = .ok out session') :
    (first.append second).run loader options image session = .ok out session' := by
  have hthrough := (run_eq_ok_iff hseq hflag).mp hfirst
  have hflag' := unset_of_through hseq hflag hthrough
  refine (run_eq_ok_iff hseq hflag).mpr ((through_append hthrough).trans ?_)
  exact (run_eq_ok_iff hseq hflag').mp hsecond

theorem run_of_breaks (hseq : options.parallel = false) (hflag : CancelFlag.Unset session.cancel)
    (h : Breaks loader options chain.stages image session k stage inner session') :
    chain.run loader options image session =
      .error (.stage (k + 1) stage.effectId inner) session' :=
  (run_eq_error_iff hseq hflag).mpr ⟨k, stage, inner, h, rfl, h.ofEffect hseq hflag⟩

/-- Where the first chain fails, both chains fail with the same number. -/
theorem run_append_of_breaks_left (hseq : options.parallel = false)
    (hflag : CancelFlag.Unset session.cancel)
    (h : Breaks loader options first.stages image session k stage inner session') :
    (first.append second).run loader options image session =
      .error (.stage (k + 1) stage.effectId inner) session' :=
  run_of_breaks hseq hflag (h.append_left second.stages)

/-- Where the second chain fails on the result of the first, both chains fail with a number that
    counts the stages of the first as well. -/
theorem run_append_of_breaks_right (hseq : options.parallel = false)
    (hflag : CancelFlag.Unset session.cancel)
    (hfirst : first.run loader options image session = .ok mid between)
    (h : Breaks loader options second.stages mid between k stage inner session') :
    (first.append second).run loader options image session =
      .error (.stage (first.stages.length + (k + 1)) stage.effectId inner) session' := by
  have hthrough := (run_eq_ok_iff hseq hflag).mp hfirst
  exact run_of_breaks hseq hflag (Breaks.append_right hthrough h)

end Append

/-- Two chains one after the other, when nobody stops them. They have a result as one chain exactly
    when the first one has a result and the second one has this result on the image of the first.
    Else the first stage of either that fails is reported, by its place among all stages, with its
    own error wrapped once. A chain of one stage is loading and applying; and of two chains that
    agree up to the stage that fails, both do the same, so that nothing behind it is loaded or
    applied. -/
theorem run_appended (loader : EffectLoader) (options : ApplyOptions) (first second : Chain)
    (image : Image) (session : Session) (hseq : options.parallel = false)
    (hflag : CancelFlag.Unset session.cancel) :
    (∀ out session', (first.append second).run loader options image session = .ok out session' ↔
      ∃ mid between, first.run loader options image session = .ok mid between ∧
        second.run loader options mid between = .ok out session') ∧
    (∀ e session', (first.append second).run loader options image session = .error e session' ↔
      (∃ k stage inner,
        Breaks loader options first.stages image session k stage inner session' ∧
        e = .stage (k + 1) stage.effectId inner) ∨
      ∃ mid between k stage inner,
        first.run loader options image session = .ok mid between ∧
        Breaks loader options second.stages mid between k stage inner session' ∧
        e = .stage (first.stages.length + (k + 1)) stage.effectId inner) ∧
    (∀ e session', first.run loader options image session = .error e session' ↔
      ∃ k stage inner, Breaks loader options first.stages image session k stage inner session' ∧
        e = .stage (k + 1) stage.effectId inner ∧ inner.OfEffect) ∧
    (∀ mid between, first.run loader options image session = .ok mid between →
      ∀ e session', second.run loader options mid between = .error e session' ↔
        ∃ k stage inner, Breaks loader options second.stages mid between k stage inner session' ∧
          e = .stage (k + 1) stage.effectId inner ∧ inner.OfEffect) ∧
    (∀ stage, (single stage).run loader options image session =
      mapError (.stage 1 stage.effectId)
        (loader.load stage.effectId stage.params >>= fun effect => effect.apply options image)
        session) ∧
    ∀ (chain : Chain) (k : Nat) (stage : Stage) (inner : Error) (session' : Session),
      Breaks loader options chain.stages image session k stage inner session' →
      ∀ other : Chain, other.stages.take (k + 1) = chain.stages.take (k + 1) →
        other.run loader options image session =
          .error (.stage (k + 1) stage.effectId inner) session' := by
  have hunset : ∀ mid between, first.run loader options image session = .ok mid between →
      CancelFlag.Unset between.cancel :=
    fun mid between h => unset_of_through hseq hflag ((run_eq_ok_iff hseq hflag).mp h)
  -- Nothing else can happen than that the first chain fails, the second one does, or neither.
  have hcases := through_or_breaks loader options first.stages image session
  refine ⟨fun out session' => ⟨fun h => ?_, fun h => ?_⟩,
    fun e session' => ⟨fun h => ?_, fun h => ?_⟩, fun e session' => run_eq_error_iff hseq hflag,
    fun mid between hmid e session' => run_eq_error_iff hseq (hunset mid between hmid),
    run_single hseq hflag,
    fun chain k stage inner session' h other hsame => run_of_breaks hseq hflag (h.congr hsame)⟩
  · rcases hcases with ⟨mid, between, hthrough⟩ | ⟨k, stage, inner, session'', hbreaks⟩
    · have hmid := (run_eq_ok_iff hseq hflag).mpr hthrough
      refine ⟨mid, between, hmid, (run_eq_ok_iff hseq (hunset mid between hmid)).mpr ?_⟩
      exact (through_append hthrough).symm.trans ((run_eq_ok_iff hseq hflag).mp h)
    · rw [run_append_of_breaks_left hseq hflag hbreaks] at h
      cases h
  · rcases h with ⟨mid, between, hmid, hout⟩
    exact run_append_of_ok hseq hflag hmid hout
  · rcases hcases with ⟨mid, between, hthrough⟩ | ⟨k, stage, inner, session'', hbreaks⟩
    · have hmid := (run_eq_ok_iff hseq hflag).mpr hthrough
      rcases through_or_breaks loader options second.stages mid between with
        ⟨out, session'', hout⟩ | ⟨k, stage, inner, session'', hbreaks⟩
      · rw [run_append_of_ok hseq hflag hmid
          ((run_eq_ok_iff hseq (hunset mid between hmid)).mpr hout)] at h
        cases h
      · rw [run_append_of_breaks_right hseq hflag hmid hbreaks] at h
        cases h
        exact .inr ⟨mid, between, k, stage, inner, hmid, hbreaks, rfl⟩
    · rw [run_append_of_breaks_left hseq hflag hbreaks] at h
      cases h
      exact .inl ⟨k, stage, inner, hbreaks, rfl⟩
  · rcases h with
      ⟨k, stage, inner, hbreaks, rfl⟩ | ⟨mid, between, k, stage, inner, hmid, hbreaks, rfl⟩
    · exact run_append_of_breaks_left hseq hflag hbreaks
    · exact run_append_of_breaks_right hseq hflag hmid hbreaks

/-- A stage without parameters. -/
def stageOf (id : String) : Stage :=
  ⟨id, ∅, id, 1⟩

/-- A stage whose effect has no directory fails, whatever the image is. -/
theorem run_stageOf_missing {id : String} (h : (loader.library.findDir .effect id).isOk = false) :
    (stageOf id).run loader options image session = .error (.notFound .effect id) session := by
  have hfind : loader.find id ∅ = .error (.notFound .effect id) := by
    unfold EffectLoader.find PackageLibrary.resolve
    cases hdir : loader.library.findDir .effect id with
    | ok name =>
        rw [hdir] at h
        cases h
    | error e =>
        rw [PackageLibrary.eq_of_findDir_error hdir]
        rfl
  exact bind_of_error (EffectLoader.load_of_find_error hfind session)

/-- An effect that is there and one that is not: the first one has a result on an image with a pixel,
    and the other one is reported as the second of both. -/
theorem run_append_missing :
    ({} : ApplyOptions).parallel = false ∧ CancelFlag.Unset none ∧
      ∃ session', ((single (stageOf "fx")).append (single (stageOf "none"))).run
          (EffectLoader.diamond .lastWins) {} (.gradient 1) ⟨none, none⟩ =
        .error (.stage 2 "none" (.notFound .effect "none")) session' := by
  have hflag : CancelFlag.Unset none := fun _ h => nomatch h
  refine ⟨rfl, hflag, ?_⟩
  have hfirst : ((single (stageOf "fx")).run (EffectLoader.diamond .lastWins) {}
      (.gradient 1)).outcome ⟨none, none⟩ |>.isOk := by
    decide +kernel
  have hmissing :
      ((EffectLoader.diamond .lastWins).library.findDir .effect "none").isOk = false := by
    decide +kernel
  unfold outcome at hfirst
  split at hfirst
  · next mid between hmid =>
      have hbreaks : Breaks (EffectLoader.diamond .lastWins) {} [stageOf "none"] mid between 0
          (stageOf "none") (.notFound .effect "none") between :=
        .here (run_stageOf_missing hmissing)
      rcases run_appended (EffectLoader.diamond .lastWins) {} (single (stageOf "fx"))
        (single (stageOf "none")) (.gradient 1) ⟨none, none⟩ rfl hflag with ⟨_, herror, _⟩
      exact ⟨between, (herror _ _).mpr
        (.inr ⟨mid, between, 0, stageOf "none", _, hmid, hbreaks, rfl⟩)⟩
  · cases hfirst

end Chain

end PixelEffects
