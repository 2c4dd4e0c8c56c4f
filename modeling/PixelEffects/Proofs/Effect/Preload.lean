import PixelEffects.Effect
import PixelEffects.Proofs.Package
import Mathlib.Logic.Relation

/-!
# The Order of Preloads

In which order the libs of an effect are run.

The walk has three things to look after: the path it is on, the libs that are in, and their order.
Its result is described by what it *adds* to the order. Every lib that is added is needed by what is
named in the list, has an id that is not on the path, and comes after what it names itself. The first
gives that nothing else is in the order. The second is what keeps the ids different, because the id
of a lib is on the path while what it needs is added, and the lib only afterwards. The third is a
property of the order alone, and holds of every order on the way.

That what is named comes in the order in which it is named follows from the first. When a lib has
been taken in, and another one is not needed by anything so far, then the other one is not there yet.

## Main definitions

* `Preload.Names`: One package names a lib.
* `Preload.Needed`: A lib is named in a list, or by what is needed itself.
* `Preload.Settled`: An order in which nothing is missing, so far.
* `Preload.Arranged`: The libs of a package in the order in which they are to be run.

## Theorems

* `Preload.visitLib_adds`, `Preload.visit_adds`: What one lib adds, and what a list adds.
* `Preload.visit_arranged`: The walk from an empty order arranges the libs.
* `EffectLoader.load_arranged`: So are those of every effect that was loaded.
-/

namespace PixelEffects

namespace Preload

/-- How names find libs. -/
abbrev Find := String → Except Error Package

/-- A package names a lib that is to be run before it. -/
def Names (find : Find) (p q : Package) : Prop :=
  ∃ name ∈ p.metadata.preload, find name = .ok q

/-- A lib is needed by what is named in a list: it is named there, or it is reached from a lib that
    is, from each lib to one that it names. -/
def Needed (find : Find) (names : List String) (p : Package) : Prop :=
  ∃ name ∈ names, ∃ q, find name = .ok q ∧ Relation.ReflTransGen (Names find) q p

/-- An order of libs that were found, in which every lib has an id of its own and comes after all
    that it names. -/
structure Settled (find : Find) (order : List Package) : Prop where
  found : ∀ p ∈ order, ∃ name, find name = .ok p
  distinct : (order.map (·.id)).Nodup
  after : ∀ p ∈ order, ∀ name ∈ p.metadata.preload, ∃ q, find name = .ok q ∧ [q, p].Sublist order

/-- The libs of a package as they are to be run. Each one has an id of its own; they are what the
    package needs; each one comes after all that it names; and of two that the package itself names,
    the one that is visited first comes first, unless something visited until then needs the other
    one. -/
structure Arranged (find : Find) (shadowing : Shadowing) (p : Package) (libs : List Package) :
    Prop where
  distinct : (libs.map (·.id)).Nodup
  named : ∀ name ∈ p.metadata.preload, ∃ q ∈ libs, find name = .ok q
  exact : ∀ q, q ∈ libs ↔ Needed find p.metadata.preload q
  after : ∀ q ∈ libs, ∀ name ∈ q.metadata.preload, ∃ r, find name = .ok r ∧ [r, q].Sublist libs
  declared : ∀ (i j : Nat) (name name' : String) (a b : Package), i < j →
    (shadowing.arrange p.metadata.preload)[i]? = some name → find name = .ok a →
    (shadowing.arrange p.metadata.preload)[j]? = some name' → find name' = .ok b →
    ¬ Needed find ((shadowing.arrange p.metadata.preload).take (i + 1)) b →
    [a, b].Sublist libs

variable {find : Find} {shadowing : Shadowing}

theorem mem_arrange {names : List String} {name : String} :
    name ∈ shadowing.arrange names ↔ name ∈ names := by
  cases shadowing with
  | lastWins => exact Iff.rfl
  | firstWins => exact List.mem_reverse

/-! ## What is needed -/

namespace Needed

variable {names names' : List String} {p q : Package}

theorem of_mem {name : String} (hname : name ∈ names) (hfind : find name = .ok p) :
    Needed find names p :=
  ⟨name, hname, p, hfind, .refl⟩

/-- What a needed lib needs is needed. -/
theorem trans (h : Needed find names p) (hq : Needed find p.metadata.preload q) :
    Needed find names q := by
  rcases h with ⟨name, hname, first, hfirst, hp⟩
  rcases hq with ⟨below, hbelow, second, hsecond, hq⟩
  have hnames : Names find p second := ⟨below, hbelow, hsecond⟩
  exact ⟨name, hname, first, hfirst, (hp.tail hnames).trans hq⟩

theorem mono (hnames : ∀ name ∈ names, name ∈ names') (h : Needed find names p) :
    Needed find names' p := by
  rcases h with ⟨name, hname, rest⟩
  exact ⟨name, hnames name hname, rest⟩

end Needed

/-! ## Orders -/

namespace Settled

variable {order : List Package}

theorem nil : Settled find [] :=
  ⟨fun _ hp => absurd hp List.not_mem_nil, List.nodup_nil, fun _ hp => absurd hp List.not_mem_nil⟩

/-- What is reached from a lib in the order is in the order. -/
theorem mem_of_reached (h : Settled find order) {p q : Package} (hp : p ∈ order)
    (hq : Relation.ReflTransGen (Names find) p q) : q ∈ order := by
  induction hq with
  | refl => exact hp
  | tail _ hnames ih =>
      rcases hnames with ⟨name, hname, hfind⟩
      rcases h.after _ ih name hname with ⟨r, hr, hbefore⟩
      rw [hfind] at hr
      cases hr
      exact hbefore.subset List.mem_cons_self

/-- A lib may follow when everything that it names is there and its id is not. -/
theorem snoc (h : Settled find order) {p : Package} (hfind : ∃ name, find name = .ok p)
    (hid : p.id ∉ order.map (·.id))
    (hnames : ∀ name ∈ p.metadata.preload, ∃ q ∈ order, find name = .ok q) :
    Settled find (order ++ [p]) := by
  refine ⟨fun q hq => ?_, ?_, fun q hq name hname => ?_⟩
  · rcases List.mem_append.mp hq with hq | hq
    · exact h.found q hq
    · rw [List.mem_singleton.mp hq]
      exact hfind
  · have hdistinct := List.nodup_cons.mpr ⟨hid, h.distinct⟩
    rw [List.map_append, List.map_singleton]
    exact (List.perm_append_singleton p.id _).nodup_iff.mpr hdistinct
  · rcases List.mem_append.mp hq with hq | hq
    · -- What is in the order already has not moved.
      rcases h.after q hq name hname with ⟨r, hr, hbefore⟩
      exact ⟨r, hr, hbefore.trans (List.sublist_append_left order [p])⟩
    · rw [List.mem_singleton] at hq
      subst hq
      rcases hnames name hname with ⟨r, hmem, hr⟩
      exact ⟨r, hr, (List.singleton_sublist.mpr hmem).append (List.Sublist.refl [q])⟩

end Settled

/-! ## What the walk adds -/

/-- What is added to an order for a list of names below a path. -/
structure Adds (find : Find) (path names : List String) (order order' : List Package) : Prop where
  settled : Settled find order'
  added : ∃ added, order' = order ++ added ∧
    ∀ p ∈ added, p.id ∉ path ∧ Needed find names p
  found : ∀ name ∈ names, ∃ p ∈ order', find name = .ok p

namespace Adds

variable {path names names' : List String} {order order' order'' : List Package}

theorem refl (h : Settled find order) : Adds find path [] order order := by
  refine ⟨h, ⟨[], (List.append_nil order).symm, fun p hp => ?_⟩, fun name hname => ?_⟩
  · exact absurd hp List.not_mem_nil
  · exact absurd hname List.not_mem_nil

theorem sublist (h : Adds find path names order order') : order.Sublist order' := by
  rcases h.added with ⟨added, rfl, _⟩
  exact List.sublist_append_left order added

/-- What is named is in the order. -/
theorem mem (h : Adds find path names order order') {name : String} {p : Package}
    (hname : name ∈ names) (hfind : find name = .ok p) : p ∈ order' := by
  rcases h.found name hname with ⟨q, hq, hfound⟩
  rw [hfind] at hfound
  cases hfound
  exact hq

theorem trans (h : Adds find path names order order')
    (h' : Adds find path names' order' order'') :
    Adds find path (names ++ names') order order'' := by
  rcases h.added with ⟨added, hadded, hall⟩
  rcases h'.added with ⟨added', hadded', hall'⟩
  refine ⟨h'.settled, ⟨added ++ added', ?_, fun p hp => ?_⟩, fun name hname => ?_⟩
  · rw [hadded', hadded, List.append_assoc]
  · rcases List.mem_append.mp hp with hp | hp
    · rcases hall p hp with ⟨hpath, hneeded⟩
      exact ⟨hpath, hneeded.mono fun _ => List.mem_append_left names'⟩
    · rcases hall' p hp with ⟨hpath, hneeded⟩
      exact ⟨hpath, hneeded.mono fun _ => List.mem_append_right names⟩
  · rcases List.mem_append.mp hname with hname | hname
    · rcases h.found name hname with ⟨p, hp, hfind⟩
      exact ⟨p, h'.sublist.subset hp, hfind⟩
    · exact h'.found name hname

theorem congr (hnames : ∀ name, name ∈ names ↔ name ∈ names')
    (h : Adds find path names order order') : Adds find path names' order order' := by
  rcases h.added with ⟨added, hadded, hall⟩
  refine ⟨h.settled, ⟨added, hadded, fun p hp => ?_⟩, fun name hname => ?_⟩
  · rcases hall p hp with ⟨hpath, hneeded⟩
    exact ⟨hpath, hneeded.mono fun name => (hnames name).mp⟩
  · exact h.found name ((hnames name).mpr hname)

end Adds

/-- Names that find packages with one id find one package. -/
def KnownById (find : Find) : Prop :=
  ∀ name name' p p', find name = .ok p → find name' = .ok p' → p.id = p'.id → p = p'

/-- Taking in one lib adds it with what it needs, if walking through what it names does. -/
theorem visitLib_adds (hknown : KnownById find)
    {below : List String → List Package → List String → Except Error (List Package)}
    (hbelow : ∀ {path order names order'}, below path order names = .ok order' →
      Settled find order → Adds find path names order order')
    {path : List String} {order order' : List Package} {name : String}
    (h : visitLib find below path order name = .ok order') (hsettled : Settled find order) :
    Adds find path [name] order order' := by
  unfold visitLib at h
  split at h
  · cases h
  next lib hlib =>
    have hneeded : Needed find [name] lib := .of_mem List.mem_cons_self hlib
    split at h
    · cases h
    next hpath =>
      rw [List.contains_iff_mem] at hpath
      split at h
      next hthere =>
        -- A lib with this id is there, so it is this one.
        cases h
        rcases List.any_eq_true.mp hthere with ⟨other, hother, hid⟩
        rcases hsettled.found other hother with ⟨name', hname'⟩
        have hsame := hknown name' name other lib hname' hlib (beq_iff_eq.mp hid)
        subst hsame
        refine ⟨hsettled, ⟨[], (List.append_nil order).symm, fun p hp => ?_⟩, fun n hn => ?_⟩
        · exact absurd hp List.not_mem_nil
        · rw [List.mem_singleton.mp hn]
          exact ⟨other, hother, hlib⟩
      next hthere =>
        split at h
        · cases h
        next order₁ hrun =>
          cases h
          have hadds := hbelow hrun hsettled
          rcases hadds.added with ⟨added, hadded, hall⟩
          -- While its needs were added, the id of the lib was on the path.
          have hid : lib.id ∉ order₁.map (·.id) := by
            intro hmem
            rcases List.mem_map.mp hmem with ⟨p, hp, hpid⟩
            rw [hadded] at hp
            rcases List.mem_append.mp hp with hp | hp
            · exact hthere (List.any_eq_true.mpr ⟨p, hp, beq_iff_eq.mpr hpid⟩)
            · refine (hall p hp).1 (List.mem_append_right path ?_)
              rw [hpid]
              exact List.mem_cons_self
          refine ⟨hadds.settled.snoc ⟨name, hlib⟩ hid hadds.found,
            ⟨added ++ [lib], ?_, fun p hp => ?_⟩, fun n hn => ?_⟩
          · rw [hadded, List.append_assoc]
          · rcases List.mem_append.mp hp with hp | hp
            · rcases hall p hp with ⟨hnotPath, hneeds⟩
              exact ⟨fun hmem => hnotPath (List.mem_append_left _ hmem), hneeded.trans hneeds⟩
            · rw [List.mem_singleton.mp hp]
              exact ⟨hpath, hneeded⟩
          · rw [List.mem_singleton.mp hn]
            exact ⟨lib, List.mem_append_right order₁ List.mem_cons_self, hlib⟩

/-- A step that adds for every name adds for a list of names. -/
theorem foldlM_adds {path : List String}
    {step : List Package → String → Except Error (List Package)}
    (hstep : ∀ {order name order'}, step order name = .ok order' → Settled find order →
      Adds find path [name] order order')
    {names : List String} {order order' : List Package}
    (h : names.foldlM step order = .ok order') (hsettled : Settled find order) :
    Adds find path names order order' := by
  induction names generalizing order with
  | nil =>
      rw [List.foldlM_nil] at h
      cases h
      exact .refl hsettled
  | cons name names ih =>
      rw [List.foldlM_cons] at h
      rcases bind_eq_ok h with ⟨order₁, hfirst, hrest⟩
      have hadds := hstep hfirst hsettled
      exact hadds.trans (ih hrest hadds.settled)

theorem visit_adds (hknown : KnownById find) {depth : Nat} {path : List String}
    {order : List Package} {names : List String} {order' : List Package}
    (h : visit find shadowing depth path order names = .ok order')
    (hsettled : Settled find order) : Adds find path names order order' := by
  induction depth generalizing path order names order' with
  | zero => cases h
  | succ depth ih =>
      have hadds := foldlM_adds (fun hlib => visitLib_adds hknown ih hlib) h hsettled
      exact hadds.congr fun name => mem_arrange

/-! ## The order of a package -/

/-- What is added up to a place in a list is there before what is only added later. -/
theorem visit_declared (hknown : KnownById find) {depth : Nat} {path : List String}
    {names : List String} {libs : List Package}
    (h : visit find shadowing depth path [] names = .ok libs) {i j : Nat} {name name' : String}
    {a b : Package} (hij : i < j) (hname : (shadowing.arrange names)[i]? = some name)
    (ha : find name = .ok a) (hname' : (shadowing.arrange names)[j]? = some name')
    (hb : find name' = .ok b)
    (hneeded : ¬ Needed find ((shadowing.arrange names).take (i + 1)) b) :
    [a, b].Sublist libs := by
  cases depth with
  | zero => cases h
  | succ depth =>
      unfold visit at h
      -- The list is walked up to the first name and from there on.
      rw [← List.take_append_drop (i + 1) (shadowing.arrange names), List.foldlM_append] at h
      rcases bind_eq_ok h with ⟨front, hfront, hback⟩
      have hstep : ∀ {order name order'},
          visitLib find (visit find shadowing depth) path order name = .ok order' →
          Settled find order → Adds find path [name] order order' :=
        fun hlib => visitLib_adds hknown (visit_adds hknown) hlib
      have hfrontAdds := foldlM_adds hstep hfront .nil
      have hbackAdds := foldlM_adds hstep hback hfrontAdds.settled
      have hafront : a ∈ front := by
        have hmem : name ∈ (shadowing.arrange names).take (i + 1) := by
          rw [List.mem_take_iff_getElem]
          rcases List.getElem?_eq_some_iff.mp hname with ⟨hi, hget⟩
          exact ⟨i, by omega, hget⟩
        exact hfrontAdds.mem hmem ha
      have hbfront : b ∉ front := by
        intro hmem
        rcases hfrontAdds.added with ⟨added, rfl, hall⟩
        exact hneeded (hall b hmem).2
      have hblibs : b ∈ libs := by
        have hmem : name' ∈ (shadowing.arrange names).drop (i + 1) := by
          rw [List.mem_drop_iff_getElem]
          rcases List.getElem?_eq_some_iff.mp hname' with ⟨hj, hget⟩
          exact ⟨j - (i + 1), by omega, by simp only [Nat.add_sub_cancel' hij]; exact hget⟩
        exact hbackAdds.mem hmem hb
      rcases hbackAdds.added with ⟨added, rfl, _⟩
      have hbadded : b ∈ added := (List.mem_append.mp hblibs).resolve_left hbfront
      exact (List.singleton_sublist.mpr hafront).append (List.singleton_sublist.mpr hbadded)

theorem visit_arranged (hknown : KnownById find) {depth : Nat} {p : Package} {libs : List Package}
    (h : visit find shadowing depth [] [] p.metadata.preload = .ok libs) :
    Arranged find shadowing p libs := by
  have hadds := visit_adds hknown h .nil
  refine ⟨hadds.settled.distinct, hadds.found, fun q => ⟨fun hq => ?_, fun hq => ?_⟩,
    hadds.settled.after, fun i j name name' a b => visit_declared hknown h⟩
  · rcases hadds.added with ⟨added, rfl, hall⟩
    exact (hall q hq).2
  · rcases hq with ⟨name, hname, first, hfirst, hreached⟩
    exact hadds.settled.mem_of_reached (hadds.mem hname hfirst) hreached

end Preload

namespace PackageLibrary

variable {lib : PackageLibrary} {shadowing : Shadowing}

theorem knownById_resolve (kind : PackageKind) : Preload.KnownById (lib.resolve kind) :=
  fun _ _ _ _ => resolve_inj

/-- The libs of an effect were found. -/
theorem found_of_preloads {effect : Package} {libs : List Package}
    (h : lib.preloads shadowing effect = .ok libs) :
    ∀ p ∈ libs, ∃ name, lib.resolve .lib name = .ok p :=
  (Preload.visit_adds (knownById_resolve .lib) h .nil).settled.found

/-- The libs of an effect, if they can be found at all, are arranged. -/
theorem preloads_arranged {effect : Package} {libs : List Package}
    (h : lib.preloads shadowing effect = .ok libs) :
    Preload.Arranged (lib.resolve .lib) shadowing effect libs :=
  Preload.visit_arranged (knownById_resolve .lib) h

end PackageLibrary

namespace EffectLoader

/-- What was loaded was found. -/
theorem find_of_load {loader : EffectLoader} {id : String} {params : Params} {effect : Effect}
    {session session' : Session} (h : loader.load id params session = .ok effect session') :
    loader.find id params = .ok effect := by
  unfold load at h
  simp only [bind, EStateM.bind] at h
  cases hfind : loader.find id params with
  | error e =>
      rw [hfind] at h
      cases h
  | ok found =>
      rw [hfind] at h
      simp only [Operation.ofExcept, pure, EStateM.pure] at h
      split at h
      · cases h
        rfl
      · cases h

/-- An effect that was loaded has its libs in the order in which they are to be run. -/
theorem load_arranged {loader : EffectLoader} {id : String} {params : Params} {effect : Effect}
    {session session' : Session} (h : loader.load id params session = .ok effect session') :
    Preload.Arranged (loader.library.resolve .lib) loader.config.shadowing effect.package
      effect.libs := by
  have hfind := find_of_load h
  unfold find at hfind
  rcases bind_eq_ok hfind with ⟨package, _, hfind⟩
  rcases bind_eq_ok hfind with ⟨libs, hlibs, hfind⟩
  cases hfind
  exact PackageLibrary.preloads_arranged hlibs

/-- A directory of a package with one script. -/
def packageNode (kind : PackageKind) (preload file source : String) : Node :=
  .dir [(kind.metadataFile, .file (.text ("preload: " ++ preload ++ "\nfiles: " ++ file))),
    (file, .file (.text source))]

/-- An effect that names two libs, which both name a third one, in different letter cases. -/
def diamond (shadowing : Shadowing) : EffectLoader :=
  ofLibrary ⟨⟨.dir
      [("effects", .dir [("fx", packageNode .effect "left, right" Package.effectScript
          "function effect(p) return {} end")]),
        ("libs", .dir [("right", packageNode .lib "Base" "lib.lua" ""),
          ("base", packageNode .lib "" "lib.lua" ""),
          ("left", packageNode .lib "BASE" "lib.lua" "")])], []⟩, ⟨"/"⟩⟩
    ⟨shadowing, .preserve, {}⟩ false .spaced

/-- The ids of the libs of an effect, if it can be loaded. -/
def libIds (loader : EffectLoader) (id : String) : Option (List String) :=
  match loader.load id ∅ ⟨none, none⟩ with
  | .ok effect _ => some (effect.libs.map (·.id))
  | .error _ _ => none

theorem load_of_libIds {loader : EffectLoader} {id : String} {ids : List String}
    (h : loader.libIds id = some ids) : ∃ effect session',
      loader.load id ∅ ⟨none, none⟩ = .ok effect session' ∧ effect.libs.map (·.id) = ids := by
  unfold libIds at h
  split at h
  next effect session' hload => exact ⟨effect, session', hload, Option.some.inj h⟩
  next => cases h

theorem load_arranged_diamond :
    (∃ effect session', (diamond .lastWins).load "FX" ∅ ⟨none, none⟩ = .ok effect session' ∧
      effect.libs.map (·.id) = ["base", "left", "right"] ∧
      Preload.Arranged ((diamond .lastWins).library.resolve .lib) .lastWins effect.package
        effect.libs) ∧
    (∃ effect session', (diamond .firstWins).load "FX" ∅ ⟨none, none⟩ = .ok effect session' ∧
      effect.libs.map (·.id) = ["base", "right", "left"] ∧
      Preload.Arranged ((diamond .firstWins).library.resolve .lib) .firstWins effect.package
        effect.libs) := by
  refine ⟨?_, ?_⟩
  · have hids : (diamond .lastWins).libIds "FX" = some ["base", "left", "right"] := by
      decide +kernel
    rcases load_of_libIds hids with ⟨effect, session', hload, hlibs⟩
    exact ⟨effect, session', hload, hlibs, load_arranged hload⟩
  · have hids : (diamond .firstWins).libIds "FX" = some ["base", "right", "left"] := by
      decide +kernel
    rcases load_of_libIds hids with ⟨effect, session', hload, hlibs⟩
    exact ⟨effect, session', hload, hlibs, load_arranged hload⟩

end EffectLoader

end PixelEffects
