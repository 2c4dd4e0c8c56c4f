import PixelEffects.FileTree
import PixelEffects.Proofs.Except
import PixelEffects.Proofs.FileTree.Path
import Mathlib.Data.List.Induction
import Mathlib.Data.Multiset.Basic

/-!
# What Can Be Seen of a File Tree

What reading a path depends on.

A path that ends in a name is looked up in the directory in front of it, so what is there decides
what can be read: whether there is a directory, which names it lists, and what is under them. That
is all that anybody sees of a tree. The order in which a directory lists its names is no part of it,
and neither is anything elsewhere.

Two trees agree under a path when the same can be seen at every place below it that names lead to.
They may differ everywhere else, also in what leads to the path.

## Main definitions

* `Node.childAt`: The node under a name, or why there is none.
* `Node.Sight`, `Node.sight`: What can be seen of a node.
* `FileTree.AgreeUnder`: Two trees in which the same can be seen below a path.
* `FileTree.WellNamed`: A tree in which entries have names.

## Theorems

* `FileTree.node?_join`: What is at a joint path.
* `FileTree.isDir_eq`, `FileTree.isFile_eq`, `FileTree.readText_eq`, `FileTree.toOption_names?`: What
  is read is a function of what is seen.
* `FileTree.AgreeUnder.sight?_join`: Below a directory, trees that agree show the same.
* `FileTree.WellNamed.isName_of_entries`: What is listed in a well named tree.
-/

namespace PixelEffects

namespace Node

/-- The node under a name, or why there is none. -/
def childAt (node : Node) (name : String) : Except OsError Node :=
  match node with
  | .file _ => .error .notDirectory
  | .dir entries =>
    if name.utf8ByteSize > FileTree.maxName then .error .nameTooLong
    else
      match entries.lookup name with
      | some child => .ok child
      | none => .error .notFound

/-- What can be seen of a node: what a file holds, and which names a directory lists. -/
inductive Sight
  | file (content : Content)
  | dir (names : Multiset String)

/-- What can be seen of a node. -/
def sight : Node → Sight
  | file content => .file content
  | dir entries => .dir (entries.map (·.1) : List String)

/-- The names that are seen, if it is a directory. -/
def Sight.names? : Sight → Option (Multiset String)
  | file _ => none
  | dir names => some names

/-- Whether something is under a name decides how looking for it fails. -/
theorem childAt_congr {entries entries' : List (String × Node)} {name : String}
    (h : ((dir entries).childAt name).toOption.map sight =
      ((dir entries').childAt name).toOption.map sight) :
    ((dir entries).childAt name).map sight = ((dir entries').childAt name).map sight := by
  unfold childAt at h ⊢
  dsimp only at h ⊢
  split
  · rfl
  · next hlong =>
      rw [if_neg hlong, if_neg hlong] at h
      -- Both directories have something under the name, or neither has.
      cases hchild : entries.lookup name with
      | none =>
          cases hchild' : entries'.lookup name with
          | none => rfl
          | some child' =>
              rw [hchild, hchild'] at h
              cases h
      | some child =>
          cases hchild' : entries'.lookup name with
          | none =>
              rw [hchild, hchild'] at h
              cases h
          | some child' =>
              rw [hchild, hchild'] at h
              exact congrArg Except.ok (Option.some.inj h)

mutual

/-- Whether the entries of all directories have names. -/
def wellNamed : Node → Bool
  | file _ => true
  | dir entries => allWellNamed entries

/-- Whether entries have names, and those of all directories among them too. -/
def allWellNamed : List (String × Node) → Bool
  | [] => true
  | (name, node) :: rest => Path.isName name && node.wellNamed && allWellNamed rest

end

theorem of_allWellNamed {entries : List (String × Node)} (h : allWellNamed entries = true) :
    ∀ entry ∈ entries, Path.isName entry.1 = true ∧ entry.2.wellNamed = true := by
  induction entries with
  | nil => exact fun _ hentry => absurd hentry List.not_mem_nil
  | cons first rest ih =>
      rw [allWellNamed, Bool.and_eq_true, Bool.and_eq_true] at h
      intro entry hentry
      rcases List.mem_cons.mp hentry with rfl | hentry
      · exact h.1
      · exact ih h.2 entry hentry

end Node

namespace FileTree

variable {t t' : FileTree}

/-! ## Following names -/

theorem follow_append (stack : List (String × Node)) (names others : List String) :
    follow stack (names ++ others) = follow stack names >>= fun stack => follow stack others := by
  induction names generalizing stack with
  | nil => rfl
  | cons name names ih =>
      rw [List.cons_append]
      cases stack with
      | nil => rfl
      | cons top above =>
          rcases top with ⟨n, node⟩
          cases node with
          | file content => rfl
          | dir entries =>
              rw [follow, follow]
              split
              · exact ih _
              · split
                · exact ih _
                · split
                  · rfl
                  · split
                    · exact ih _
                    · rfl

/-- One name leads to a place that is known from before, but for one node at most, which is an entry
    of a directory on the way. -/
theorem follow_cons_eq_ok {stack stack' : List (String × Node)} {name : String}
    {names : List String} (h : follow stack (name :: names) = .ok stack') :
    ∃ next, follow next names = .ok stack' ∧ next ≠ [] ∧
      ∀ e ∈ next, e ∈ stack ∨ ∃ n entries, (n, .dir entries) ∈ stack ∧ e ∈ entries := by
  cases stack with
  | nil => cases h
  | cons top above =>
      rcases top with ⟨n, node⟩
      cases node with
      | file content => cases h
      | dir entries =>
          rw [follow] at h
          split at h
          · exact ⟨_, h, List.cons_ne_nil _ _, fun e he => .inl he⟩
          · split at h
            · -- Above the top there is the top again.
              by_cases htop : above.isEmpty = true
              · rw [if_pos htop] at h
                refine ⟨_, h, List.cons_ne_nil _ _, fun e he => .inl ?_⟩
                exact List.mem_singleton.mp he ▸ List.mem_cons_self
              · rw [if_neg htop] at h
                refine ⟨_, h, fun hnil => htop (by rw [hnil]; rfl), fun e he => .inl ?_⟩
                exact List.mem_cons_of_mem _ he
            · split at h
              · cases h
              · split at h
                · next child hchild =>
                    refine ⟨_, h, List.cons_ne_nil _ _, fun e he => ?_⟩
                    rcases List.mem_cons.mp he with rfl | he
                    · rcases List.lookup_eq_some_iff.mp hchild with ⟨front, back, rfl, _⟩
                      exact .inr ⟨n, _, List.mem_cons_self,
                        List.mem_append_right front List.mem_cons_self⟩
                    · exact .inl he
                · cases h

/-- Whoever starts somewhere is always somewhere. -/
theorem follow_ne_nil {stack stack' : List (String × Node)} {names : List String}
    (h : follow stack names = .ok stack') (hne : stack ≠ []) : stack' ≠ [] := by
  induction names generalizing stack with
  | nil =>
      cases stack <;> (cases h; exact hne)
  | cons name names ih =>
      rcases follow_cons_eq_ok h with ⟨next, hrest, hnext, _⟩
      exact ih hrest hnext

/-- What is neither a point nor two leads from a node to the node under it. -/
theorem follow_singleton_of_ne {n name : String} {node : Node} {above : List (String × Node)}
    (hdot : name ≠ ".") (hdots : name ≠ "..") :
    follow ((n, node) :: above) [name] =
      (node.childAt name).map fun child => (name, child) :: (n, node) :: above := by
  cases node with
  | file content => rfl
  | dir entries =>
      unfold Node.childAt
      rw [follow, beq_false_of_ne hdot, if_neg Bool.false_ne_true, beq_false_of_ne hdots,
        if_neg Bool.false_ne_true]
      dsimp only
      split
      · rfl
      · cases entries.lookup name <;> rfl

/-- A name leads from a node to the node under it. -/
theorem follow_singleton {n name : String} {node : Node} {above : List (String × Node)}
    (h : Path.isName name = true) :
    follow ((n, node) :: above) [name] =
      (node.childAt name).map fun child => (name, child) :: (n, node) :: above := by
  rcases Path.isName_iff.mp h with ⟨_, hdot, hdots, _⟩
  exact follow_singleton_of_ne hdot hdots

theorem nodeAt_concat {names : List String} {name : String} (h : Path.isName name = true) :
    t.nodeAt (names ++ [name]) = t.nodeAt names >>= fun node => node.childAt name := by
  unfold nodeAt walk
  rw [follow_append]
  cases hfollow : follow [("", t.top)] names with
  | error e => rfl
  | ok stack =>
      cases stack with
      | nil => exact (follow_ne_nil hfollow (List.cons_ne_nil _ _) rfl).elim
      | cons top above =>
          rcases top with ⟨n, node⟩
          simp only [bind, Except.bind, pure, Except.pure]
          rw [follow_singleton h]
          cases node.childAt name <;> rfl

/-! ## Joint paths -/

variable {dir : Path} {name : String}

theorem route_join (hdir : dir.Closed) (hpart : Path.IsPart name) :
    t.route (Path.join dir name) = t.route dir ++ [name] := by
  unfold route
  rw [Path.isAbsolute_join hdir hpart, Path.parts_join hdir hpart, List.append_assoc]

/-- A path can be written down if one that goes on from it can. -/
theorem checkPath_of_join (hdir : dir.Closed) (hname : Path.isName name = true)
    (h : checkPath (Path.join dir name) = .ok ()) : checkPath dir = .ok () := by
  unfold checkPath at h ⊢
  rw [Path.join_of_closed hdir (Path.isPart_of_isName hname)] at h
  split at h
  · cases h
  · next hnul =>
      split at h
      · cases h
      · split at h
        · cases h
        · next hlong =>
            -- The longer path has no NUL and is short enough, so this holds of its front.
            rw [if_neg, if_neg, if_neg]
            · rw [String.utf8ByteSize_append, String.utf8ByteSize_append] at hlong
              omega
            · exact fun hempty => hdir.1 (String.isEmpty_iff.mp hempty)
            · intro hmem
              refine hnul (List.contains_iff_mem.mpr ?_)
              rw [String.toList_append, String.toList_append]
              exact List.mem_append_left _ (List.mem_append_left _ (List.contains_iff_mem.mp hmem))

/-- What is at a joint path is looked up in the directory in front. -/
theorem node?_join (hdir : dir.Closed) (hname : Path.isName name = true) :
    t.node? (Path.join dir name) = checkPath (Path.join dir name) >>= fun _ =>
      t.nodeAt (t.route dir) >>= fun node => node.childAt name := by
  unfold node?
  rw [route_join hdir (Path.isPart_of_isName hname), nodeAt_concat hname]

/-- The name of what is at a joint path is listed by the directory in front. -/
theorem mem_entries_of_join (hdir : dir.Closed) (hname : Path.isName name = true) {node : Node}
    (h : t.node? (Path.join dir name) = .ok node) :
    ∃ entries, t.entries dir = .ok entries ∧ name ∈ entries.map (·.1) := by
  rw [node?_join hdir hname] at h
  rcases bind_eq_ok h with ⟨_, hcheck, h⟩
  rcases bind_eq_ok h with ⟨above, habove, h⟩
  have hnode : t.node? dir = .ok above := by
    unfold node?
    rw [checkPath_of_join hdir hname hcheck]
    exact habove
  cases above with
  | file content => cases h
  | dir entries =>
      refine ⟨entries, ?_, ?_⟩
      · unfold FileTree.entries
        rw [hnode]
        rfl
      · unfold Node.childAt at h
        dsimp only at h
        split at h
        · cases h
        · split at h
          · next child hchild =>
              rcases List.lookup_eq_some_iff.mp hchild with ⟨front, back, rfl, _⟩
              exact List.mem_map.mpr
                ⟨(name, child), List.mem_append_right front List.mem_cons_self, rfl⟩
          · cases h

/-! ## What is seen -/

/-- What can be seen at a path. -/
def sight? (t : FileTree) (p : Path) : Except OsError Node.Sight :=
  (t.node? p).map Node.sight

theorem isDir_eq (t : FileTree) (p : Path) :
    t.isDir p = ((t.sight? p).toOption.bind Node.Sight.names?).isSome := by
  unfold isDir sight?
  cases t.node? p with
  | error e => rfl
  | ok node => cases node <;> rfl

/-- A directory at a path is one that the names along it lead to. -/
theorem nodeAt_of_isDir {p : Path} (h : t.isDir p = true) :
    ∃ entries, t.nodeAt (t.route p) = .ok (.dir entries) := by
  unfold isDir at h
  split at h
  · next node hnode =>
      unfold node? at hnode
      rcases bind_eq_ok hnode with ⟨_, _, hnode⟩
      cases node with
      | file content => cases h
      | dir entries => exact ⟨entries, hnode⟩
  · cases h

theorem isFile_eq (t : FileTree) (p : Path) :
    t.isFile p = match t.sight? p with
      | .ok (.file _) => true
      | _ => false := by
  unfold isFile sight?
  cases t.node? p with
  | error e => rfl
  | ok node => cases node <;> rfl

theorem readText_eq (t : FileTree) (p : Path) :
    t.readText p = match t.sight? p with
      | .ok (.file (.text s)) => .ok s
      | .ok (.file _) => .error .notText
      | .ok (.dir _) => .error .isDirectory
      | .error e => .error e := by
  unfold readText read sight?
  cases t.node? p with
  | error e => rfl
  | ok node =>
      cases node with
      | file content => cases content <;> rfl
      | dir entries => rfl

/-- The names that a directory lists. -/
def names? (t : FileTree) (p : Path) : Except OsError (Multiset String) :=
  (t.entries p).map fun entries => (entries.map (·.1) : List String)

theorem toOption_names? (t : FileTree) (p : Path) :
    (t.names? p).toOption = (t.sight? p).toOption.bind Node.Sight.names? := by
  unfold names? entries sight?
  cases t.node? p with
  | error e => rfl
  | ok node => cases node <;> rfl

/-- A directory can be listed. -/
theorem entries_of_isDir {p : Path} (h : t.isDir p = true) :
    ∃ entries, t.entries p = .ok entries := by
  unfold isDir at h
  split at h
  · next node hnode =>
      cases node with
      | file content => cases h
      | dir entries =>
          refine ⟨entries, ?_⟩
          unfold FileTree.entries
          rw [hnode]
          rfl
  · cases h

/-- What is listed at a path where the same can be listed: nothing in either tree, or the same names
    in some order. -/
theorem entries_cases {p : Path} (h : (t.names? p).toOption = (t'.names? p).toOption) :
    (∃ e e', t.entries p = .error e ∧ t'.entries p = .error e') ∨
      ∃ entries entries', t.entries p = .ok entries ∧ t'.entries p = .ok entries' ∧
        (entries.map (·.1)).Perm (entries'.map (·.1)) := by
  unfold names? at h
  -- Names can be listed exactly where entries can.
  cases hentries : t.entries p with
  | error e =>
      cases hentries' : t'.entries p with
      | error e' => exact .inl ⟨e, e', rfl, rfl⟩
      | ok entries' =>
          rw [hentries, hentries'] at h
          cases h
  | ok entries =>
      cases hentries' : t'.entries p with
      | error e' =>
          rw [hentries, hentries'] at h
          cases h
      | ok entries' =>
          rw [hentries, hentries'] at h
          exact .inr ⟨entries, entries', rfl, rfl, Multiset.coe_eq_coe.mp (Option.some.inj h)⟩

/-! ## Trees that agree -/

/-- Two trees in which the same can be seen below a path, wherever names lead to. Below a place where
    nothing can be seen in one tree, nothing can be seen in the other. -/
def AgreeUnder (t t' : FileTree) (dir : Path) : Prop :=
  ∀ below : List String, (∀ name ∈ below, Path.isName name = true) →
    (t.nodeAt (t.route dir ++ below)).toOption.map Node.sight =
      (t'.nodeAt (t'.route dir ++ below)).toOption.map Node.sight

theorem toOption_sight? (t : FileTree) (p : Path) :
    (t.sight? p).toOption =
      (checkPath p).toOption.bind fun _ => (t.nodeAt (t.route p)).toOption.map Node.sight := by
  unfold sight? node?
  cases checkPath p with
  | error e => rfl
  | ok u =>
      simp only [bind, Except.bind]
      cases t.nodeAt (t.route p) <;> rfl

namespace AgreeUnder

/-- Trees that agree under a path agree under a directory there. -/
theorem join (h : AgreeUnder t t' dir) (hdir : dir.Closed) (hname : Path.isName name = true) :
    AgreeUnder t t' (Path.join dir name) := by
  intro below hbelow
  have hsame := h (name :: below) fun n hn => by
    rcases List.mem_cons.mp hn with rfl | hn
    · exact hname
    · exact hbelow n hn
  have hpart := Path.isPart_of_isName hname
  rw [route_join hdir hpart, route_join hdir hpart, List.append_assoc, List.append_assoc]
  exact hsame

theorem toOption_sight?_eq (h : AgreeUnder t t' dir) :
    (t.sight? dir).toOption = (t'.sight? dir).toOption := by
  have hsame := h [] fun name hname => absurd hname List.not_mem_nil
  rw [List.append_nil, List.append_nil] at hsame
  rw [toOption_sight?, toOption_sight?, hsame]

/-- Below a directory, trees that agree show the same, and where they show nothing, they fail in the
    same way. -/
theorem sight?_join (h : AgreeUnder t t' dir) (hdir : dir.Closed)
    (hname : Path.isName name = true) (hthere : t.isDir dir = true) :
    t.sight? (Path.join dir name) = t'.sight? (Path.join dir name) := by
  unfold sight?
  rw [node?_join hdir hname, node?_join hdir hname]
  cases checkPath (Path.join dir name) with
  | error e => rfl
  | ok u =>
      -- The trees agree on the directory itself, which decides whether to look for the name.
      have hself := h [] fun name hname => absurd hname List.not_mem_nil
      have hchild := h [name] fun n hn => List.mem_singleton.mp hn ▸ hname
      rw [List.append_nil, List.append_nil] at hself
      rw [nodeAt_concat hname, nodeAt_concat hname] at hchild
      rcases nodeAt_of_isDir hthere with ⟨entries, hnode⟩
      rw [hnode] at hself hchild ⊢
      cases hnode' : t'.nodeAt (t'.route dir) with
      | error e =>
          rw [hnode'] at hself
          cases hself
      | ok node' =>
          rw [hnode'] at hself hchild
          cases node' with
          | file content => cases hself
          | dir entries' => exact Node.childAt_congr hchild

/-- Trees with the same node at a path agree under it. -/
theorem of_nodeAt (h : t.nodeAt (t.route dir) = t'.nodeAt (t'.route dir)) :
    AgreeUnder t t' dir := by
  intro below hbelow
  -- What is under a node is the same wherever the node is.
  have hsame : t.nodeAt (t.route dir ++ below) = t'.nodeAt (t'.route dir ++ below) := by
    induction below using List.reverseRecOn with
    | nil =>
        rw [List.append_nil, List.append_nil]
        exact h
    | append_singleton below name ih =>
        have hname := hbelow name (List.mem_append_right _ List.mem_cons_self)
        rw [← List.append_assoc, ← List.append_assoc, nodeAt_concat hname, nodeAt_concat hname,
          ih fun n hn => hbelow n (List.mem_append_left _ hn)]
  rw [hsame]

end AgreeUnder

/-- A tree in which every entry of a directory has a name. -/
def WellNamed (t : FileTree) : Prop :=
  t.top.wellNamed = true

theorem wellNamed_of_follow {stack stack' : List (String × Node)} {names : List String}
    (h : follow stack names = .ok stack') (hstack : ∀ e ∈ stack, e.2.wellNamed = true) :
    ∀ e ∈ stack', e.2.wellNamed = true := by
  induction names generalizing stack with
  | nil => cases stack <;> (cases h; exact hstack)
  | cons name names ih =>
      rcases follow_cons_eq_ok h with ⟨next, hrest, _, hmem⟩
      refine ih hrest fun e he => ?_
      rcases hmem e he with hold | ⟨n, entries, hdir, hentry⟩
      · exact hstack e hold
      · -- All entries of a directory are well-named if it is so itself.
        have hall : Node.allWellNamed entries = true := hstack _ hdir
        exact (Node.of_allWellNamed hall e hentry).2

/-- In a tree in which entries have names, a directory lists names. -/
theorem WellNamed.isName_of_entries (h : t.WellNamed) {p : Path} {entries : List (String × Node)}
    (hentries : t.entries p = .ok entries) :
    ∀ name ∈ entries.map (·.1), Path.isName name = true := by
  unfold FileTree.entries node? nodeAt at hentries
  rcases bind_eq_ok hentries with ⟨node, hnode, hentries⟩
  rcases bind_eq_ok hnode with ⟨_, _, hnode⟩
  rcases bind_eq_ok hnode with ⟨stack, hwalk, hnode⟩
  have hstack := wellNamed_of_follow hwalk fun e he => List.mem_singleton.mp he ▸ h
  cases stack with
  | nil => cases hnode
  | cons top above =>
      cases hnode
      split at hentries
      · next hdir =>
          cases hentries
          have hall : Node.allWellNamed entries = true := by
            have htop := hstack top List.mem_cons_self
            rw [hdir] at htop
            exact htop
          intro name hname
          rcases List.mem_map.mp hname with ⟨entry, hentry, rfl⟩
          exact (Node.of_allWellNamed hall entry hentry).1
      · cases hentries

end FileTree

end PixelEffects
