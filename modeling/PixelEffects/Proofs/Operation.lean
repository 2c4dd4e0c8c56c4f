import PixelEffects.Operation

/-!
# What Operations Do

What an operation ends with, and what it does to the session.

Two things can be said of an operation by looking at its parts. It may leave the flag as it is, which
is so unless it looks at the flag, since a look is the only thing that changes it. And it may have
nothing to do with the session at all. Both go through a sequence of operations, so for anything that
is put together from smaller operations they are shown piece by piece.

## Main definitions

* `CancelFlag.Unset`: A flag that nobody sets.
* `Operation.outcome`, `Operation.sessionAfter`: What an operation ends with, and what it leaves.
* `Operation.KeepsFlag`: An operation leaves the flag as it is.
* `Operation.Detached`: An operation has nothing to do with the session.
* `Operation.FailsWith`: What an operation that nobody stops can fail with.

## Theorems

* `Operation.bind_of_ok`, `Operation.bind_of_error`: A sequence of two operations, step by step.
* `Operation.outcome_bind`, `Operation.outcome_bind_error`, `Operation.outcome_sharing`: What larger
  operations end with.
* `Operation.checkCancel_cases`, `Operation.checkCancel_unset`: A look at a flag, and at an unset one.
* `Operation.keepsFlag_bind`, `Operation.keepsFlag_foldlM`: Sequences that leave the flag.
* `Operation.detached_bind`, `Operation.detached_foldlM`: Sequences without the session.
* `Operation.failsWith_bind`, `Operation.failsWith_foldlM`: What sequences fail with.
-/

namespace PixelEffects

/-- A flag that nobody sets, if there is one at all. -/
def CancelFlag.Unset (cancel : Option CancelFlag) : Prop :=
  ∀ flag ∈ cancel, flag.after = none

namespace Operation

variable {α β : Type}

/-- What an operation ends with, without what it did to the session. -/
def outcome (op : Operation α) (session : Session) : Except Error α :=
  match op session with
  | .ok a _ => .ok a
  | .error e _ => .error e

theorem bind_of_ok {op : Operation α} {next : α → Operation β} {session session' : Session} {a : α}
    (h : op session = .ok a session') : (op >>= next) session = next a session' := by
  simp only [bind, EStateM.bind]
  rw [h]

theorem bind_of_error {op : Operation α} {next : α → Operation β} {session session' : Session}
    {e : Error} (h : op session = .error e session') :
    (op >>= next) session = .error e session' := by
  simp only [bind, EStateM.bind]
  rw [h]

theorem mapError_of_ok {f : Error → Error} {op : Operation α} {session session' : Session} {a : α}
    (h : op session = .ok a session') : mapError f op session = .ok a session' := by
  unfold mapError
  rw [h]

theorem mapError_of_error {f : Error → Error} {op : Operation α} {session session' : Session}
    {e : Error} (h : op session = .error e session') :
    mapError f op session = .error (f e) session' := by
  unfold mapError
  rw [h]

/-- What comes after an operation that has a result decides what both end with. -/
theorem outcome_bind {op : Operation α} {next : α → Operation β}
    {session session' : Session} {a : α} (h : op session = .ok a session') :
    (op >>= next).outcome session = (next a).outcome session' := by
  unfold outcome
  rw [bind_of_ok h]

/-- An operation that fails is the end, whatever was to come after it. -/
theorem outcome_bind_error {op : Operation α} {next : α → Operation β}
    {session session' : Session} {e : Error} (h : op session = .error e session') :
    (op >>= next).outcome session = .error e := by
  unfold outcome
  rw [bind_of_error h]

/-- A look at the flag stops, or it goes on with the flag as later looks find it. -/
theorem checkCancel_cases (session : Session) :
    checkCancel session = .error .cancelled session ∨
      ∃ session', checkCancel session = .ok () session' := by
  rcases session with ⟨cache, cancel⟩
  cases cancel with
  | none => exact .inr ⟨_, rfl⟩
  | some flag =>
      unfold checkCancel
      dsimp only
      by_cases hset : flag.isSet = true
      · rw [if_pos hset]
        exact .inl rfl
      · rw [if_neg hset]
        exact .inr ⟨_, rfl⟩

/-- An unset flag stops nothing, and stays as it is. -/
theorem checkCancel_unset {session : Session} (h : CancelFlag.Unset session.cancel) :
    checkCancel session = .ok () session := by
  rcases session with ⟨cache, cancel⟩
  cases cancel with
  | none => rfl
  | some flag =>
      rcases flag with ⟨after⟩
      -- Only a flag that is set at some moment counts down.
      have hafter : after = none := h _ rfl
      subst hafter
      rfl

/-- The session that an operation leaves, however it ends. -/
def sessionAfter (op : Operation α) (session : Session) : Session :=
  match op session with
  | .ok _ session => session
  | .error _ session => session

/-- An operation leaves the flag as it is. -/
def KeepsFlag (op : Operation α) : Prop :=
  ∀ session, (op.sessionAfter session).cancel = session.cancel

theorem keepsFlag_pure (a : α) : KeepsFlag (pure a : Operation α) :=
  fun _ => rfl

theorem keepsFlag_fail (e : Error) : KeepsFlag (fail e : Operation α) :=
  fun _ => rfl

theorem keepsFlag_bind {op : Operation α} {next : α → Operation β} (hop : op.KeepsFlag)
    (hnext : ∀ a, (next a).KeepsFlag) : (op >>= next).KeepsFlag := by
  intro session
  have hfirst := hop session
  unfold sessionAfter at hfirst ⊢
  simp only [bind, EStateM.bind]
  cases hrun : op session with
  | error e session' =>
      rw [hrun] at hfirst
      exact hfirst
  | ok a session' =>
      rw [hrun] at hfirst
      have hsecond := hnext a session'
      unfold sessionAfter at hsecond
      exact hsecond.trans hfirst

theorem keepsFlag_foldlM {op : β → α → Operation β} (hop : ∀ b a, (op b a).KeepsFlag)
    (items : List α) (b : β) : KeepsFlag (items.foldlM op b) := by
  induction items generalizing b with
  | nil => exact keepsFlag_pure b
  | cons a items ih =>
      rw [List.foldlM_cons]
      exact keepsFlag_bind (hop b a) ih

/-- What a computation with the flag ends with. -/
theorem outcome_sharing (body : Option CancelFlag → Except Error α × Option CancelFlag)
    (session : Session) : (sharing body).outcome session = (body session.cancel).1 := by
  unfold outcome sharing
  rcases body session.cancel with ⟨result, cancel⟩
  cases result <;> rfl

/-- An operation that neither looks at the session nor changes it, with something that holds of its
    result. -/
def Detached (good : α → Prop) (op : Operation α) : Prop :=
  ∃ result, op = ofExcept result ∧ ∀ a, result = .ok a → good a

theorem detached_pure {good : α → Prop} {a : α} (h : good a) :
    Detached good (pure a : Operation α) := by
  refine ⟨.ok a, rfl, fun b hb => ?_⟩
  cases hb
  exact h

theorem detached_fail {good : α → Prop} (e : Error) : Detached good (fail e : Operation α) :=
  ⟨.error e, rfl, fun _ h => by cases h⟩

theorem detached_bind {good : α → Prop} {better : β → Prop} {op : Operation α}
    {next : α → Operation β} (hop : Detached good op)
    (hnext : ∀ a, good a → Detached better (next a)) : Detached better (op >>= next) := by
  rcases hop with ⟨result, hop, hgood⟩
  subst hop
  cases result with
  | ok a => exact hnext a (hgood a rfl)
  | error e => exact detached_fail e

theorem detached_foldlM {good : β → Prop} {op : β → α → Operation β}
    (hop : ∀ b a, good b → Detached good (op b a)) (items : List α) {b : β} (hb : good b) :
    Detached good (items.foldlM op b) := by
  induction items generalizing b with
  | nil => exact detached_pure hb
  | cons a items ih =>
      rw [List.foldlM_cons]
      exact detached_bind (hop b a hb) fun b' hb' => ih hb'

/-- As long as nobody sets the flag, an operation that has a result leaves it like that, and one that
    fails does so with an error of a kind. -/
def FailsWith (kind : Error → Prop) (op : Operation α) : Prop :=
  ∀ session, CancelFlag.Unset session.cancel →
    match op session with
    | .ok _ session => CancelFlag.Unset session.cancel
    | .error e _ => kind e

section FailsWith

variable {kind : Error → Prop}

theorem KeepsFlag.failsWith {op : Operation α} (hop : op.KeepsFlag)
    (herror : ∀ session e session', op session = .error e session' → kind e) :
    op.FailsWith kind := by
  intro session hflag
  have hkept := hop session
  unfold sessionAfter at hkept
  cases hrun : op session with
  | ok a session' =>
      rw [hrun] at hkept
      exact fun flag hmem => hflag flag (hkept ▸ hmem)
  | error e session' => exact herror session e session' hrun

theorem failsWith_pure (a : α) : FailsWith kind (pure a : Operation α) :=
  fun _ hflag => hflag

theorem failsWith_fail {e : Error} (h : kind e) : FailsWith kind (fail e : Operation α) :=
  fun _ _ => h

theorem failsWith_ofExcept {result : Except Error α} (h : ∀ e, result = .error e → kind e) :
    FailsWith kind (ofExcept result) := by
  cases result with
  | ok a => exact failsWith_pure a
  | error e => exact failsWith_fail (h e rfl)

theorem failsWith_bind {op : Operation α} {next : α → Operation β} (hop : op.FailsWith kind)
    (hnext : ∀ a, (next a).FailsWith kind) : (op >>= next).FailsWith kind := by
  intro session hflag
  have hfirst := hop session hflag
  cases hrun : op session with
  | error e session' =>
      rw [bind_of_error hrun]
      rw [hrun] at hfirst
      exact hfirst
  | ok a session' =>
      rw [bind_of_ok hrun]
      rw [hrun] at hfirst
      exact hnext a session' hfirst

theorem failsWith_foldlM {op : β → α → Operation β} (hop : ∀ b a, (op b a).FailsWith kind)
    (items : List α) (b : β) : FailsWith kind (items.foldlM op b) := by
  induction items generalizing b with
  | nil => exact failsWith_pure b
  | cons a items ih =>
      rw [List.foldlM_cons]
      exact failsWith_bind (hop b a) ih

theorem failsWith_checkCancel : FailsWith kind checkCancel := by
  intro session hflag
  rw [checkCancel_unset hflag]
  exact hflag

end FailsWith

end Operation

end PixelEffects
