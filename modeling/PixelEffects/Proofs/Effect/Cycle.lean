import PixelEffects.Proofs.Effect.Failure
import PixelEffects.Proofs.Effect.Preload
import PixelEffects.Proofs.Package.Directory
import Mathlib.Data.List.Chain
import Mathlib.Data.List.Nodup

/-!
# Cycles of Preloads

When a walk through preloads ends with a cycle.

The walk is described without a bound on its depth, as the steps that it takes and what they end
with. A walk that is bounded takes these steps as long as the bound is not met, and it is not: the
ids on the path are different, and they are ids of libs, so there are never more of them than the
directory of libs has entries. This is all that there is to termination.

What the path is made of is kept along with the walk: each lib on it is named by the one before, and
the first one by the effect. So when an id is met that is on the path, the part of the path from
there on is a cycle. In the other direction, a walk that has a result has put every lib behind all
that it names, and no lib is behind itself. So what needs itself keeps a walk from having a result,
in whatever order lists are walked and whatever was taken in before.

## Main definitions

* `Preload.Walks`: What a walk without a bound ends with.
* `Preload.Listed`: A name that is given by an effect, or by a lib that it needs.
* `Preload.Trail`: A path of libs, each one named by the one before.
* `Preload.Cyclic`: A cycle among the libs that are needed.

## Theorems

* `Preload.visit_walks`: A walk whose bound is large enough is a walk without a bound.
* `Preload.Walks.unique`: A walk without a bound ends in one way.
* `Preload.Walks.error_cases`: It fails with a cycle, or with a name that is not found.
* `Preload.Arranged.acyclic`: Where it has a result, nothing that is needed needs itself.
* `EffectLoader.load_cyclic`: Cycles keep effects from being loaded.
-/

namespace PixelEffects

namespace Preload

/-! ## Walks without a bound -/

/-- What a walk through a list of names below a path ends with. -/
inductive Walks (find : Find) (shadowing : Shadowing) :
    List String → List Package → List String → Except Error (List Package) → Prop
  | done {path order} : Walks find shadowing path order [] (.ok order)
  | unknown {path order name names e} (hname : find name = .error e) :
      Walks find shadowing path order (name :: names) (.error e)
  | cyclic {path order name names lib} (hname : find name = .ok lib) (hpath : lib.id ∈ path) :
      Walks find shadowing path order (name :: names) (.error (.cyclicPreload (cycle path lib.id)))
  | there {path order name names lib result} (hname : find name = .ok lib)
      (hpath : lib.id ∉ path) (hthere : lib.id ∈ order.map (·.id))
      (hrest : Walks find shadowing path order names result) :
      Walks find shadowing path order (name :: names) result
  | failed {path order name names lib e} (hname : find name = .ok lib)
      (hpath : lib.id ∉ path) (hthere : lib.id ∉ order.map (·.id))
      (hbelow : Walks find shadowing (path ++ [lib.id]) order
        (shadowing.arrange lib.metadata.preload) (.error e)) :
      Walks find shadowing path order (name :: names) (.error e)
  | taken {path order order' name names lib result} (hname : find name = .ok lib)
      (hpath : lib.id ∉ path) (hthere : lib.id ∉ order.map (·.id))
      (hbelow : Walks find shadowing (path ++ [lib.id]) order
        (shadowing.arrange lib.metadata.preload) (.ok order'))
      (hrest : Walks find shadowing path (order' ++ [lib]) names result) :
      Walks find shadowing path order (name :: names) result

variable {find : Find} {shadowing : Shadowing} {path : List String} {order : List Package}
  {names : List String}

/-- A walk ends in one way. -/
theorem Walks.unique {result result' : Except Error (List Package)}
    (h : Walks find shadowing path order names result)
    (h' : Walks find shadowing path order names result') : result = result' := by
  -- What is found under a name, and where it is already, leaves one way to go on.
  induction h generalizing result' with
  | done =>
      cases h'
      rfl
  | unknown hname =>
      cases h' with
      | unknown hname' => exact congrArg Except.error (Except.error.inj (hname.symm.trans hname'))
      | _ => simp_all only [reduceCtorEq]
  | cyclic hname hpath =>
      cases h' with
      | cyclic hname' _ => rw [Except.ok.inj (hname.symm.trans hname')]
      | _ => simp_all only [reduceCtorEq, Except.ok.injEq, not_true_eq_false]
  | there hname hpath hthere _ ih =>
      cases h' with
      | there _ _ _ hrest => exact ih hrest
      | _ => simp_all only [reduceCtorEq, Except.ok.injEq, not_true_eq_false]
  | failed hname hpath hthere _ ih =>
      cases h' with
      | failed hname' _ _ hbelow =>
          cases Except.ok.inj (hname.symm.trans hname')
          exact ih hbelow
      | taken hname' _ _ hbelow _ =>
          cases Except.ok.inj (hname.symm.trans hname')
          cases ih hbelow
      | _ => simp_all only [reduceCtorEq, Except.ok.injEq]
  | taken hname hpath hthere _ _ ihbelow ihrest =>
      cases h' with
      | failed hname' _ _ hbelow =>
          cases Except.ok.inj (hname.symm.trans hname')
          cases ihbelow hbelow
      | taken hname' _ _ hbelow hrest =>
          cases Except.ok.inj (hname.symm.trans hname')
          cases ihbelow hbelow
          exact ihrest hrest
      | _ => simp_all only [reduceCtorEq, Except.ok.injEq]

section Steps

variable {below : List String → List Package → List String → Except Error (List Package)}

/-- What is done with a lib that is found. -/
theorem visitLib_of_found {name : String} {lib : Package} (hname : find name = .ok lib)
    (order : List Package) : visitLib find below path order name =
      if lib.id ∈ path then .error (.cyclicPreload (cycle path lib.id))
      else if lib.id ∈ order.map (·.id) then .ok order
      else (below (path ++ [lib.id]) order lib.metadata.preload).map (· ++ [lib]) := by
  have hthere : order.any (·.id == lib.id) = true ↔ lib.id ∈ order.map (·.id) := by
    rw [List.any_eq_true, List.mem_map]
    exact exists_congr fun p => and_congr_right fun _ => beq_iff_eq
  unfold visitLib
  simp only [hname, List.contains_iff_mem, hthere]
  congr 2
  cases below (path ++ [lib.id]) order lib.metadata.preload <;> rfl

/-- The steps of one list, when every list below is a walk. -/
theorem foldlM_walks
    (hbelow : ∀ name lib order, find name = .ok lib → lib.id ∉ path →
      Walks find shadowing (path ++ [lib.id]) order (shadowing.arrange lib.metadata.preload)
        (below (path ++ [lib.id]) order lib.metadata.preload))
    (names : List String) (order : List Package) :
    Walks find shadowing path order names (names.foldlM (visitLib find below path) order) := by
  induction names generalizing order with
  | nil => exact .done
  | cons name names ih =>
      rw [List.foldlM_cons]
      cases hname : find name with
      | error e =>
          have hstep : visitLib find below path order name = .error e := by
            unfold visitLib
            rw [hname]
          rw [hstep]
          exact .unknown hname
      | ok lib =>
          rw [visitLib_of_found hname]
          split
          · next hpath => exact .cyclic hname hpath
          · next hpath =>
              split
              · next hthere => exact .there hname hpath hthere (ih order)
              · next hthere =>
                  -- The lib is new, so all that it needs comes first, and then itself.
                  have hwalks := hbelow name lib order hname hpath
                  cases hresult : below (path ++ [lib.id]) order lib.metadata.preload with
                  | error e =>
                      rw [hresult] at hwalks
                      exact .failed hname hpath hthere hwalks
                  | ok order' =>
                      rw [hresult] at hwalks
                      exact .taken hname hpath hthere hwalks (ih (order' ++ [lib]))

end Steps

/-- A bounded walk is one without a bound, when the bound and the ids on the path are more than there
    are ids of libs. -/
theorem visit_walks {ids : List String} (hids : ∀ name lib, find name = .ok lib → lib.id ∈ ids)
    {depth : Nat} (hdistinct : path.Nodup) (hpath : ∀ id ∈ path, id ∈ ids)
    (hdepth : ids.length < depth + path.length) (order : List Package) (names : List String) :
    Walks find shadowing path order (shadowing.arrange names)
      (visit find shadowing depth path order names) := by
  induction depth generalizing path order names with
  | zero =>
      -- Without depth left, the path would have more ids than there are.
      have hfew := (List.subperm_of_subset hdistinct hpath).length_le
      omega
  | succ depth ih =>
      refine foldlM_walks (fun name lib order hname hnew => ?_) _ order
      refine ih ?_ (fun id hid => ?_) ?_ order lib.metadata.preload
      · exact (List.perm_append_singleton lib.id path).nodup_iff.mpr
          (List.nodup_cons.mpr ⟨hnew, hdistinct⟩)
      · rcases List.mem_append.mp hid with hid | hid
        · exact hpath id hid
        · rw [List.mem_singleton.mp hid]
          exact hids name lib hname
      · rw [List.length_append, List.length_singleton]
        omega

/-! ## Cycles -/

/-- A name that is given by an effect, or by a lib that it needs. -/
def Listed (find : Find) (start : List String) (name : String) : Prop :=
  name ∈ start ∨ ∃ p, Needed find start p ∧ name ∈ p.metadata.preload

/-- A path of libs that an effect needs, where each one is named by the one before, and names at its
    end: they are given by the last lib, or by the effect if there is none. -/
structure Trail (find : Find) (start : List String) (libs : List Package) (names : List String) :
    Prop where
  distinct : (libs.map (·.id)).Nodup
  linked : libs.IsChain (Names find)
  needed : ∀ p ∈ libs, Needed find start p
  given : ∀ name ∈ names, libs = [] ∧ name ∈ start ∨
    ∃ p ∈ libs.getLast?, name ∈ p.metadata.preload

/-- A cycle among the libs that an effect needs. It has at least two ids; the first one is the last
    one, and else all are different; and each id is that of a lib which is named by the one before. -/
structure Cyclic (find : Find) (start : List String) (ids : List String) : Prop where
  long : 2 ≤ ids.length
  closed : ids.head? = ids.getLast?
  distinct : ids.dropLast.Nodup
  linked : ∃ libs : List Package, ids = libs.map (·.id) ∧ libs.IsChain (Names find) ∧
    ∀ p ∈ libs, Needed find start p

namespace Trail

variable {start : List String} {libs : List Package} {name : String} {lib : Package}

theorem mono {names' : List String} (h : Trail find start libs names)
    (hnames : ∀ name ∈ names', name ∈ names) : Trail find start libs names' :=
  ⟨h.distinct, h.linked, h.needed, fun name hname => h.given name (hnames name hname)⟩

theorem listed (h : Trail find start libs names) (hname : name ∈ names) :
    Listed find start name := by
  rcases h.given name hname with ⟨_, hstart⟩ | ⟨p, hp, hgiven⟩
  · exact .inl hstart
  · exact .inr ⟨p, h.needed p (List.mem_of_getLast? hp), hgiven⟩

/-- What is found under a name at the end is needed. -/
theorem needed_of_mem (h : Trail find start libs names) (hname : name ∈ names)
    (hfind : find name = .ok lib) : Needed find start lib := by
  rcases h.listed hname with hstart | ⟨p, hp, hgiven⟩
  · exact .of_mem hstart hfind
  · exact hp.trans (.of_mem hgiven hfind)

/-- What is found under a name at the end is named by the last lib. -/
theorem linked_snoc (h : Trail find start libs names) (hname : name ∈ names)
    (hfind : find name = .ok lib) : (libs ++ [lib]).IsChain (Names find) := by
  refine List.isChain_append.mpr ⟨h.linked, List.isChain_singleton lib, fun p hp q hq => ?_⟩
  cases hq
  rcases h.given name hname with ⟨hnil, _⟩ | ⟨last, hlast, hgiven⟩
  · rw [hnil] at hp
    cases hp
  · rw [Option.mem_unique hp hlast]
    exact ⟨name, hgiven, hfind⟩

/-- A path goes on with a lib whose id is new, to the names that the lib gives. -/
theorem snoc (h : Trail find start libs names) (hname : name ∈ names)
    (hfind : find name = .ok lib) (hnew : lib.id ∉ libs.map (·.id)) :
    Trail find start (libs ++ [lib]) lib.metadata.preload := by
  refine ⟨?_, h.linked_snoc hname hfind, fun p hp => ?_, fun name' hname' => ?_⟩
  · rw [List.map_append, List.map_singleton]
    exact (List.perm_append_singleton lib.id _).nodup_iff.mpr
      (List.nodup_cons.mpr ⟨hnew, h.distinct⟩)
  · rcases List.mem_append.mp hp with hp | hp
    · exact h.needed p hp
    · rw [List.mem_singleton.mp hp]
      exact h.needed_of_mem hname hfind
  · refine .inr ⟨lib, ?_, hname'⟩
    rw [List.getLast?_append, List.getLast?_singleton, Option.some_or]
    rfl

/-- An id that is met again closes a cycle. -/
theorem cyclic (h : Trail find start libs names) (hname : name ∈ names)
    (hfind : find name = .ok lib) (hmet : lib.id ∈ libs.map (·.id)) :
    Cyclic find start (cycle (libs.map (·.id)) lib.id) := by
  rcases List.mem_map.mp hmet with ⟨p, hp, hid⟩
  rcases List.append_of_mem hp with ⟨front, back, hlibs⟩
  have hdistinct := h.distinct
  rw [hlibs, List.map_append, List.map_cons, hid] at hdistinct
  -- The cycle begins where the id was met first. Ids on the path are distinct, so none is in front.
  have hfront : ∀ id ∈ front.map (·.id), (id != lib.id) = true := by
    intro id hmem
    refine bne_iff_ne.mpr fun heq => ?_
    exact (List.nodup_append.mp hdistinct).2.2 id hmem lib.id List.mem_cons_self heq
  have hcycle : cycle (libs.map (·.id)) lib.id = ((p :: back) ++ [lib]).map (·.id) := by
    unfold cycle
    rw [hlibs, List.map_append, List.map_cons, hid, List.dropWhile_append_of_pos hfront,
      List.dropWhile_cons_of_neg (by rw [bne_self_eq_false]; exact Bool.false_ne_true),
      List.map_append, List.map_cons, hid, List.map_singleton]
  rw [hcycle]
  refine ⟨?_, ?_, ?_, (p :: back) ++ [lib], rfl, ?_, fun q hq => ?_⟩
  · simp only [List.map_append, List.length_append, List.length_map, List.length_cons,
      List.length_nil]
    omega
  · rw [List.map_append, List.map_singleton, List.getLast?_append, List.getLast?_singleton,
      Option.some_or, List.map_cons, List.cons_append, List.head?_cons, hid]
  · rw [List.map_append, List.map_singleton, List.dropLast_concat, List.map_cons, hid]
    exact (List.nodup_append.mp hdistinct).2.1
  · have hlinked := h.linked_snoc hname hfind
    rw [hlibs, List.append_assoc] at hlinked
    exact hlinked.right_of_append
  · rcases List.mem_append.mp hq with hq | hq
    · refine h.needed q ?_
      rw [hlibs]
      exact List.mem_append_right front hq
    · rw [List.mem_singleton.mp hq]
      exact h.needed_of_mem hname hfind

end Trail

/-- A walk that fails has closed a cycle, or it has come to a name that is not found. -/
theorem Walks.error_cases {start : List String} {libs : List Package}
    {result : Except Error (List Package)} (h : Walks find shadowing path order names result)
    (hpath : path = libs.map (·.id)) (htrail : Trail find start libs names) {e : Error}
    (he : result = .error e) :
    (∃ ids, e = .cyclicPreload ids ∧ Cyclic find start ids) ∨
      ∃ name, find name = .error e ∧ Listed find start name := by
  -- The induction is on the walk. The trail that led to it grows with the path.
  induction h generalizing libs with
  | done => cases he
  | unknown hname =>
      cases he
      exact .inr ⟨_, hname, htrail.listed List.mem_cons_self⟩
  | cyclic hname hmet =>
      cases he
      rw [hpath] at hmet ⊢
      exact .inl ⟨_, rfl, htrail.cyclic List.mem_cons_self hname hmet⟩
  | there _ _ _ _ ih => exact ih hpath (htrail.mono fun _ => List.mem_cons_of_mem _) he
  | failed hname hnew _ _ ih =>
      rw [hpath] at hnew
      refine ih ?_ ((htrail.snoc List.mem_cons_self hname hnew).mono fun _ => mem_arrange.mp) he
      rw [hpath, List.map_append, List.map_singleton]
  | taken _ _ _ _ _ _ ihrest => exact ihrest hpath (htrail.mono fun _ => List.mem_cons_of_mem _) he

/-! ## Orders -/

/-- What a lib in the order names stands before it. -/
theorem Arranged.idxOf_lt {p : Package} {libs : List Package}
    (h : Arranged find shadowing p libs) {q r : Package} (hq : q ∈ libs)
    (hnames : Names find q r) : r ∈ libs ∧ libs.idxOf r < libs.idxOf q := by
  rcases hnames with ⟨name, hname, hfind⟩
  rcases h.after q hq name hname with ⟨r', hfind', hbefore⟩
  rw [hfind] at hfind'
  cases hfind'
  refine ⟨hbefore.subset List.mem_cons_self, ?_⟩
  rcases List.cons_sublist_iff.mp hbefore with ⟨front, back, rfl, hr, hback⟩
  have hqback : q ∈ back := hback.subset List.mem_cons_self
  have hqfront : q ∉ front := by
    intro hqfront
    have hdistinct := List.Nodup.of_map _ h.distinct
    exact (List.nodup_append.mp hdistinct).2.2 q hqfront q hqback rfl
  rw [List.idxOf_append_of_mem hr, List.idxOf_append_of_notMem hqfront]
  have hlt := List.idxOf_lt_length_of_mem hr
  omega

/-- Where there is an order, nothing that is needed needs itself. -/
theorem Arranged.acyclic {p : Package} {libs : List Package} (h : Arranged find shadowing p libs)
    {q : Package} (hq : Needed find p.metadata.preload q) :
    ¬ Relation.TransGen (Names find) q q := by
  have hbefore : ∀ {r}, Relation.TransGen (Names find) q r →
      r ∈ libs ∧ libs.idxOf r < libs.idxOf q := by
    intro r hreached
    induction hreached with
    | single hnames => exact h.idxOf_lt ((h.exact q).mpr hq) hnames
    | tail _ hnames ih =>
        rcases h.idxOf_lt ih.1 hnames with ⟨hmem, hlt⟩
        exact ⟨hmem, hlt.trans ih.2⟩
  exact fun hself => (hbefore hself).2.false

end Preload

namespace PackageLibrary

variable {lib : PackageLibrary}

/-- The ids of libs are those of entries of their directory. -/
theorem exists_ids (lib : PackageLibrary) (kind : PackageKind) : ∃ ids : List String,
    ids.length = lib.entryCount kind ∧
      ∀ name p, lib.resolve kind name = .ok p → p.id ∈ ids := by
  unfold entryCount
  -- Where the directory can not be listed, no lib is found.
  cases hentries : lib.tree.entries (lib.root.kindDir kind) with
  | error e =>
      refine ⟨[], rfl, fun name p hp => ?_⟩
      rcases resolve_eq_ok hp with ⟨dir, hdir, _⟩
      rcases mem_entries_of_findDir hdir with ⟨entries, hok, _⟩
      rw [hentries] at hok
      cases hok
  | ok entries =>
      refine ⟨entries.map fun entry => Case.toLower entry.1, List.length_map _, fun name p hp => ?_⟩
      rcases resolve_eq_ok hp with ⟨dir, hdir, hread⟩
      rcases mem_entries_of_findDir hdir with ⟨entries', hok, hmem⟩
      rw [hentries] at hok
      cases hok
      rcases List.mem_map.mp hmem with ⟨entry, hentry, rfl⟩
      rw [hread.id_eq]
      exact List.mem_map.mpr ⟨entry, hentry, rfl⟩

/-- The libs of a package are found by a walk without a bound. -/
theorem preloads_walks (lib : PackageLibrary) (shadowing : Shadowing) (effect : Package) :
    Preload.Walks (lib.resolve .lib) shadowing [] []
      (shadowing.arrange effect.metadata.preload) (lib.preloads shadowing effect) := by
  rcases exists_ids lib .lib with ⟨ids, hlength, hids⟩
  refine Preload.visit_walks hids List.nodup_nil (fun id hid => absurd hid List.not_mem_nil) ?_ []
    effect.metadata.preload
  rw [hlength, List.length_nil]
  omega

/-- The libs of a package cannot be found because of a cycle, or of a name that is not found. -/
theorem preloads_error_cases {shadowing : Shadowing} {effect : Package} {e : Error}
    (h : lib.preloads shadowing effect = .error e) :
    (∃ ids, e = .cyclicPreload ids ∧
        Preload.Cyclic (lib.resolve .lib) effect.metadata.preload ids) ∨
      ∃ name, lib.resolve .lib name = .error e ∧
        Preload.Listed (lib.resolve .lib) effect.metadata.preload name := by
  have htrail : Preload.Trail (lib.resolve .lib) effect.metadata.preload []
      (shadowing.arrange effect.metadata.preload) :=
    ⟨List.nodup_nil, .nil, fun p hp => absurd hp List.not_mem_nil,
      fun name hname => .inl ⟨rfl, Preload.mem_arrange.mp hname⟩⟩
  exact (preloads_walks lib shadowing effect).error_cases rfl htrail h

end PackageLibrary

namespace EffectLoader

/-- Looking for libs ends, as a walk without a bound does, and there is only one way in which it
    ends. When it ends with a cycle, that is one among the libs that the effect needs. When one of
    them needs itself, no effect with these preloads is loaded: a cycle is reported, or a name that
    is not found. -/
theorem load_cyclic (loader : EffectLoader) (effect : Package) :
    (∀ result, Preload.Walks (loader.library.resolve .lib) loader.config.shadowing [] []
        (loader.config.shadowing.arrange effect.metadata.preload) result ↔
      result = loader.library.preloads loader.config.shadowing effect) ∧
    (∀ ids, loader.library.preloads loader.config.shadowing effect = .error (.cyclicPreload ids) →
      Preload.Cyclic (loader.library.resolve .lib) effect.metadata.preload ids) ∧
    ∀ p, Preload.Needed (loader.library.resolve .lib) effect.metadata.preload p →
      Relation.TransGen (Preload.Names (loader.library.resolve .lib)) p p →
      ∀ id params session, loader.library.resolve .effect id = .ok effect →
        ∃ e, loader.load id params session = .error e session ∧
          ((∃ ids, e = .cyclicPreload ids ∧
              Preload.Cyclic (loader.library.resolve .lib) effect.metadata.preload ids) ∨
            ∃ name, loader.library.resolve .lib name = .error e ∧
              Preload.Listed (loader.library.resolve .lib) effect.metadata.preload name) := by
  have hwalks := loader.library.preloads_walks loader.config.shadowing effect
  refine ⟨fun result => ⟨fun h => h.unique hwalks, fun h => h ▸ hwalks⟩, fun ids h => ?_,
    fun p hp hself id params session heffect => ?_⟩
  · rcases PackageLibrary.preloads_error_cases h with ⟨ids', hids, hcyclic⟩ | ⟨name, hname, _⟩
    · cases hids
      exact hcyclic
    · cases PackageLibrary.ofPackage_of_resolve hname
  · -- An order of the libs would have every lib behind those that it needs, also behind itself.
    cases hpreloads : loader.library.preloads loader.config.shadowing effect with
    | ok libs =>
        exact ((PackageLibrary.preloads_arranged hpreloads).acyclic hp hself).elim
    | error e =>
        refine ⟨e, load_of_find_error ?_ session, PackageLibrary.preloads_error_cases hpreloads⟩
        unfold find
        rw [heffect]
        simp only [bind, Except.bind]
        rw [hpreloads]

/-- An effect with three libs that name one another in a ring, one of them in another letter case. -/
def ring : EffectLoader :=
  ofLibrary ⟨⟨.dir
      [("effects", .dir [("fx", packageNode .effect "a" Package.effectScript
          "function effect(p) return {} end")]),
        ("libs", .dir [("c", packageNode .lib "a" "lib.lua" ""),
          ("a", packageNode .lib "b" "lib.lua" ""),
          ("b", packageNode .lib "C" "lib.lua" "")])], []⟩, ⟨"/"⟩⟩
    {} false .spaced

/-- The cycle that is reported when an effect cannot be loaded. -/
def cycleIds (loader : EffectLoader) (id : String) : Option (List String) :=
  match loader.load id ∅ ⟨none, none⟩ with
  | .error (.cyclicPreload ids) _ => some ids
  | _ => none

theorem exists_of_preload {lib : PackageLibrary} {kind : PackageKind} {id : String}
    {names : List String}
    (h : (lib.resolve kind id).toOption.map (·.metadata.preload) = some names) :
    ∃ p, lib.resolve kind id = .ok p ∧ p.metadata.preload = names := by
  cases hresolve : lib.resolve kind id with
  | error e =>
      rw [hresolve] at h
      cases h
  | ok p =>
      rw [hresolve] at h
      exact ⟨p, rfl, Option.some.inj h⟩

/-- The ring is reported from where it is entered. -/
theorem load_cyclic_ring :
    ring.load "fx" ∅ ⟨none, none⟩ = .error (.cyclicPreload ["a", "b", "c", "a"]) ⟨none, none⟩ ∧
      Preload.Cyclic (ring.library.resolve .lib) ["a"] ["a", "b", "c", "a"] := by
  have hids : ring.cycleIds "fx" = some ["a", "b", "c", "a"] := by decide +kernel
  have hresolve : ∀ kind id names,
      (ring.library.resolve kind id).toOption.map (·.metadata.preload) = some names →
      ∃ p, ring.library.resolve kind id = .ok p ∧ p.metadata.preload = names :=
    fun _ _ _ => exists_of_preload
  rcases hresolve .effect "fx" ["a"] (by decide +kernel) with ⟨effect, heffect, hstart⟩
  rcases hresolve .lib "a" ["b"] (by decide +kernel) with ⟨a, ha, hgives⟩
  rcases hresolve .lib "b" ["C"] (by decide +kernel) with ⟨b, hb, hgives'⟩
  rcases hresolve .lib "C" ["a"] (by decide +kernel) with ⟨c, hc, hgives''⟩
  have hneeded : Preload.Needed (ring.library.resolve .lib) effect.metadata.preload a := by
    rw [hstart]
    exact .of_mem List.mem_cons_self ha
  have hself : Relation.TransGen (Preload.Names (ring.library.resolve .lib)) a a := by
    have hab : Preload.Names (ring.library.resolve .lib) a b :=
      ⟨"b", hgives ▸ List.mem_cons_self, hb⟩
    have hbc : Preload.Names (ring.library.resolve .lib) b c :=
      ⟨"C", hgives' ▸ List.mem_cons_self, hc⟩
    have hca : Preload.Names (ring.library.resolve .lib) c a :=
      ⟨"a", hgives'' ▸ List.mem_cons_self, ha⟩
    exact .tail (.tail (.single hab) hbc) hca
  rcases (load_cyclic ring effect).2.2 a hneeded hself "fx" ∅ ⟨none, none⟩ heffect with
    ⟨e, hload, ⟨ids, rfl, hcyclic⟩ | ⟨name, hname, _⟩⟩
  · unfold cycleIds at hids
    rw [hload] at hids
    cases hids
    rw [hstart] at hcyclic
    exact ⟨hload, hcyclic⟩
  · -- All names in the ring are found.
    unfold cycleIds at hids
    rw [hload] at hids
    cases PackageLibrary.ofPackage_of_resolve hname <;> cases hids

end EffectLoader

end PixelEffects
