import PixelEffects.Proofs.Script.Vocabulary.Style

/-!
# The Longest Text

How long the texts are that a script can make.

Joining two values, repeating a text and joining a table look at the length of what they are about
to make, and refuse if it is too much. No text becomes too long by being displayed. The other
functions on texts do not look, or do not look at all of it. A text in another case can be longer
than it was, and so can a part of a text, but not more than three times. A format can exceed the
longest length by what stands behind its last conversion.

So with these functions there are texts that are too long, made of texts that are not. Without them,
and for texts that are not affected, there is none in any run: no expression gives one, a machine
holds none, whatever a host has done with it, and the host is told none.

## Main definitions

* `Machine.Holds`: The values that a machine holds.

## Theorems

* `Machine.Holds.text_le`: The texts in a machine of a style are not too long.
* `text_lengths`: How long texts become, by one operation and in a whole run.
-/

namespace PixelEffects

namespace Script

open Text Vocabulary

/-- A machine holds a value as an entry of a table, as a key that a traversal gives back, or as what
    a name was declared with. -/
inductive Machine.Holds (m : Machine) : Value → Prop
  | entry (id : TableId) (k : Key) : m.Holds ((m.tables.table id).get k)
  | key {id : TableId} {k : Key} (hid : id ≠ Machine.globals)
      (h : (m.tables.table id).contains k = true) : m.Holds k.toValue
  | declared {scope : Scope} {d : String × Value} (hscope : scope ∈ m.scopes) (hd : d ∈ scope) :
      m.Holds d.2

/-- What a machine of a vocabulary holds is of the vocabulary. -/
theorem Machine.Holds.admitted {address : Addressing} {V : Vocabulary address} {m : Machine}
    {v : Value} (h : m.Holds v) (hm : V.AdmitsMachine m) : V.Admits v := by
  cases h with
  | entry id k => exact hm.heap.get id k
  | key hid hk => exact (hm.heap.tables _ hid).keys _ hk
  | declared hscope hd => exact hm.scopes _ hscope _ hd

/-- In a style of writing, a machine holds no text that is too long. -/
theorem Machine.Holds.text_le {style : Style} {address : Addressing}
    {haddress : ∀ r, address r < 2 ^ 64} {m : Machine} {t : String} (h : m.Holds (.text t))
    (hm : (style.vocabulary haddress).AdmitsMachine m) : t.utf8ByteSize ≤ maxTextLength :=
  Style.utf8ByteSize_le (h.admitted hm)

/-- A value that is displayed is not longer than the longest text unless it is such a text. -/
theorem utf8ByteSize_display_le {address : Addressing} (haddress : ∀ r, address r < 2 ^ 64)
    {v : Value} (h : ∀ t, v = .text t → t.utf8ByteSize ≤ maxTextLength) :
    (v.display address).utf8ByteSize ≤ maxTextLength := by
  have hany : ∀ {t : String}, t.utf8ByteSize ≤ maxTextLength → Style.text ⟨true, true⟩ t = true :=
    fun ht => Style.text_iff.mpr ⟨ht, fun _ _ => rfl⟩
  -- The style that allows all characters says nothing of a text but its length.
  exact Style.utf8ByteSize_le (Style.text_display haddress fun t ht => hany (h t ht))

/-- How long texts become.

    Two values that can be joined are joined, a text is repeated, and the pieces of a table are joined,
    if what is made is not too long, and if it is there is a fault. What is displayed is not too long
    unless it was already.

    A text in another case and a part of a text are at most three times as long as the text, and what
    a format makes is at most as long as the longest text and the format together. But a text of one
    letter over and over can become longer in another case, and what stands behind the last conversion
    of a format comes on top.

    Where a style of writing is kept to, no expression gives a text that is too long, and whatever a
    host has done, no machine holds one and the host is told none. An engine with the functions of a
    style keeps to it. Those of the plain style are all that there are. -/
theorem text_lengths {s : Setting} (haddress : ∀ r, s.address r < 2 ^ 64) :
    (∀ (l r : Value) (a b : String), l.joinable? = some a → r.joinable? = some b →
      binary? .concat l r =
        if (a ++ b).utf8ByteSize ≤ maxTextLength then .ok (.text (a ++ b))
        else .error .textTooLong) ∧
    (∀ (t : String) (n : Nat), Texts.repeated? t n =
      if (String.join (List.replicate n t)).utf8ByteSize ≤ maxTextLength then
        .ok (String.join (List.replicate n t))
      else .error .resultTooLarge) ∧
    (∀ (separator : String) (vs : List Value) (pieces : List String),
      vs.map Value.joinable? = pieces.map some →
        Library.joinFrom separator 1 "" vs =
          if (separator.intercalate pieces).utf8ByteSize ≤ maxTextLength then
            .ok (separator.intercalate pieces)
          else .error .textTooLong) ∧
    (∀ v : Value, (∀ t, v = .text t → t.utf8ByteSize ≤ maxTextLength) →
      (v.display s.address).utf8ByteSize ≤ maxTextLength) ∧
    (∀ (t : String) (i : Float) (j : Option Float),
      (Case.toLower t).utf8ByteSize ≤ 3 * t.utf8ByteSize ∧
      (Case.toUpper t).utf8ByteSize ≤ 3 * t.utf8ByteSize ∧
      (Texts.sub t i j).utf8ByteSize ≤ 3 * t.utf8ByteSize) ∧
    (∀ (args : List Value) (format r : String), Argument.text? .format args 0 = .ok format →
      Texts.format? s.address args = .ok r →
        r.utf8ByteSize ≤ maxTextLength + format.utf8ByteSize) ∧
    (∀ n, 2 * (Case.toLower (String.ofList (List.replicate n 'Ⱥ'))).utf8ByteSize =
        3 * (String.ofList (List.replicate n 'Ⱥ')).utf8ByteSize ∧
      (Case.toUpper (String.ofList (List.replicate n 'ΐ'))).utf8ByteSize =
        3 * (String.ofList (List.replicate n 'ΐ')).utf8ByteSize) ∧
    (∀ t tail : String, t.utf8ByteSize ≤ maxTextLength → '%' ∉ tail.toList →
      Texts.format? s.address [.text ("%s" ++ tail), .text t] = .ok (t ++ tail)) ∧
    (∀ (style : Style) (env : Env) (e : Expr) (m : Machine),
      e.every (literalChecks style.text) = true →
        (style.vocabulary haddress).AdmitsMachine m →
          EndsIn (style.vocabulary haddress).AdmitsMachine
            (fun vs => ∀ t, .text t ∈ vs → t.utf8ByteSize ≤ maxTextLength)
            (e.results callWithin env s m)) ∧
    (∀ (style : Style) (e : Engine) (ops : List HostOp),
      (style.vocabulary haddress).AdmitsEngine e → (∀ op ∈ ops, op.every style.text = true) →
        (style.vocabulary haddress).AdmitsEngine (e.answers ops).2 ∧
        (∀ t, (e.answers ops).2.machine.Holds (.text t) → t.utf8ByteSize ≤ maxTextLength) ∧
        ∀ answer ∈ (e.answers ops).1, answer.every style.text = true) ∧
    (∀ style : Style, (style.vocabulary haddress).AdmitsEngine ⟨s, style.machine⟩) ∧
    Engine.new s = ⟨s, Style.plain.machine⟩ := by
  refine ⟨fun l r a b => joined?_eq, Texts.repeated?_eq, fun separator vs pieces =>
    Library.joinFrom_eq, fun v => utf8ByteSize_display_le haddress, fun t i j => ?_,
    fun args format r => Texts.utf8ByteSize_format?_le, fun n => ?_,
    fun t tail => Texts.format?_of_display, fun style env e m he hm => ?_,
    fun style e ops he hops => ?_, fun style => ⟨rfl, Style.machine_admitted haddress⟩,
    congrArg (Engine.mk s) Style.machine_plain.symm⟩
  · exact ⟨Case.utf8ByteSize_toLower_le t, Case.utf8ByteSize_toUpper_le t,
      Texts.utf8ByteSize_sub_le t i j⟩
  · have hlower : byteCount (Case.lowerOf 'Ⱥ') = 3 := by decide +kernel
    have hupper : byteCount (Case.upperOf 'ΐ') = 6 := by decide +kernel
    have hsize : 'Ⱥ'.utf8Size = 2 ∧ 'ΐ'.utf8Size = 2 := by decide
    rw [Case.utf8ByteSize_toLower_replicate (by decide), Case.utf8ByteSize_toUpper_replicate,
      utf8ByteSize_replicate, utf8ByteSize_replicate, hlower, hupper, hsize.1, hsize.2]
    omega
  · have hkeeps :=
      Expr.results_admitted (V := style.vocabulary haddress) callWithin_admitted env e he
    refine (hkeeps.imp fun vs hvs t ht => ?_) m hm
    exact Style.utf8ByteSize_le (hvs _ ht)
  · rcases Engine.answers_admitted he hops with ⟨he', hanswers⟩
    exact ⟨he', fun t ht => ht.text_le he'.machine, hanswers⟩

/-- A new engine keeps to the plain style while it joins a greeting to a name. -/
theorem text_lengths_greeting :
    (∀ r, Addressing.spaced r % 2 ^ 64 < 2 ^ 64) ∧
      ∀ t, ((Engine.new ⟨{}, fun r => Addressing.spaced r % 2 ^ 64⟩).answers
        [.bind "name" (.text "world"), .run ⟨"greet", [.mk 1 (.assign [.name "greeting"]
          [.binary .concat (.text "hello ") (.name "name")])]⟩]).2.machine.Holds (.text t) →
        t.utf8ByteSize ≤ maxTextLength := by
  have haddress : ∀ r, Addressing.spaced r % 2 ^ 64 < 2 ^ 64 :=
    fun r => Nat.mod_lt _ (by decide)
  have hall := @text_lengths ⟨{}, fun r => Addressing.spaced r % 2 ^ 64⟩ haddress
  rcases hall with ⟨_, _, _, _, _, _, _, _, _, hruns, hstyles, _⟩
  exact ⟨haddress, (hruns .plain _ _ (hstyles .plain) (by decide)).2.1⟩

end Script

end PixelEffects
