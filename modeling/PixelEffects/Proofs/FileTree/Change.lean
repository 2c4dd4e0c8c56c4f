import PixelEffects.Proofs.FileTree

/-!
# What Changes Leave as it Was

Where a new file or directory is put, and what is still there afterwards.

A path is a text, and its parts may lead up and stay; a change is made at a place, which is the list
of names that leads down to it from the top. Following the parts goes along places too, so looking
up a path gives a place, and what is looked up there. If a change only fills places where nothing is
or replaces files, then whatever could be followed before can still be followed, and leads to the
same place. So what a path leads to after a change is known from where the change was made.

## Main definitions

* `Node.at?`: What is at a place.
* `Node.Within`: A node in which everything of another one is still there.
* `FileTree.Leads`: The place that names lead to, and what is there.
* `FileTree.put`: A tree with a node at a place.

## Theorems

* `Node.at?_put`, `Node.within_put`: What is at a place after a change.
* `FileTree.Leads.put`: Names lead where they led before.
* `FileTree.makeDirs_of_node?`: Directories that are there.
* `FileTree.makeDir_join`, `FileTree.write_join`: New directories and files.
* `FileTree.read_write`: What is written is read there.
* `FileTree.Gained.of_makeDir`, `FileTree.Gained.write`, `FileTree.Gained.readText_join`: A new
  directory with files, which are found there.
-/

namespace PixelEffects

namespace Node

/-! ## Entries -/

variable {n n' : Node} {name other : String} {entries : List (String × Node)}

theorem lookup_cons_eq (name other : String) (node : Node) (entries : List (String × Node)) :
    ((name, node) :: entries).lookup other =
      if other = name then some node else entries.lookup other := by
  rw [List.lookup_cons]
  by_cases heq : other = name
  · rw [if_pos heq, beq_iff_eq.mpr heq]
  · rw [if_neg heq, beq_false_of_ne heq]

theorem lookup_putEntry (name other : String) (node : Node) (entries : List (String × Node)) :
    (putEntry name node entries).lookup other =
      if other = name then some node else entries.lookup other := by
  induction entries with
  | nil => rw [putEntry, lookup_cons_eq]
  | cons first entries ih =>
      rcases first with ⟨n, old⟩
      rw [putEntry]
      by_cases hfirst : n = name
      · subst hfirst
        rw [if_pos BEq.rfl, lookup_cons_eq, lookup_cons_eq]
        split <;> rfl
      · rw [beq_false_of_ne hfirst, if_neg Bool.false_ne_true, lookup_cons_eq, lookup_cons_eq, ih]
        by_cases heq : other = n
        · rw [if_pos heq, if_pos heq, if_neg (heq ▸ hfirst)]
        · rw [if_neg heq, if_neg heq]

/-- A new name is listed last, and what is put there once more replaces what was put there first. -/
theorem putEntry_new (h : entries.lookup name = none) (node : Node) :
    putEntry name node entries = entries ++ [(name, node)] := by
  induction entries with
  | nil => rfl
  | cons first entries ih =>
      rcases first with ⟨n, old⟩
      rw [List.lookup_cons] at h
      split at h
      · cases h
      · next hne =>
          rw [beq_eq_false_iff_ne] at hne
          rw [putEntry, beq_false_of_ne hne.symm, if_neg Bool.false_ne_true, ih h, List.cons_append]

theorem putEntry_last (h : entries.lookup name = none) (old node : Node) :
    putEntry name node (entries ++ [(name, old)]) = entries ++ [(name, node)] := by
  induction entries with
  | nil => rw [List.nil_append, putEntry, BEq.rfl, if_pos rfl, List.nil_append]
  | cons first entries ih =>
      rcases first with ⟨n, old'⟩
      rw [List.lookup_cons] at h
      split at h
      · cases h
      · next hne =>
          rw [beq_eq_false_iff_ne] at hne
          rw [List.cons_append, putEntry, beq_false_of_ne hne.symm, if_neg Bool.false_ne_true,
            ih h, List.cons_append]

/-! ## Places -/

/-- What is at the place that names lead down to. -/
def at? : Node → List String → Option Node
  | n, [] => some n
  | n, name :: names => (n.child? name).bind fun child => child.at? names

theorem at?_append (n : Node) (names below : List String) :
    n.at? (names ++ below) = (n.at? names).bind fun node => node.at? below := by
  induction names generalizing n with
  | nil => rfl
  | cons name names ih =>
      rw [List.cons_append, at?, at?, Option.bind_assoc]
      exact congrArg _ (funext ih)

/-- What is under a name after a node was put below some name. -/
theorem child?_put (n : Node) (name other : String) (names : List String) (node : Node) :
    (n.put (name :: names) node).child? other =
      if other = name then some (((n.child? name).getD emptyDir).put names node)
      else n.child? other := by
  rw [put, child?, entries, lookup_putEntry]
  rfl

/-- What is at a place after a node was put below it. -/
theorem at?_put {old : Node} {names : List String} (h : n.at? names = some old)
    (below : List String) (node : Node) :
    (n.put (names ++ below) node).at? names = some (old.put below node) := by
  induction names generalizing n with
  | nil =>
      cases h
      rfl
  | cons name names ih =>
      rw [at?] at h
      rcases Option.bind_eq_some_iff.mp h with ⟨child, hchild, h⟩
      rw [List.cons_append, at?, child?_put, if_pos rfl, hchild, Option.getD_some,
        Option.bind_some]
      exact ih h

/-- Everything that is somewhere in a node is in the other one too, and directories are
    directories. -/
def Within (n n' : Node) : Prop :=
  ∀ names node, n.at? names = some node →
    ∃ node', n'.at? names = some node' ∧ (node.isDir = true → node'.isDir = true)

/-- To put a node where no directory is removes nothing. -/
theorem within_put {names : List String} (node : Node)
    (h : ∀ old, n.at? names = some old → old.isDir = false) : n.Within (n.put names node) := by
  induction names generalizing n with
  | nil =>
      have hfile := h n rfl
      intro names found hfound
      cases names with
      | nil =>
          cases hfound
          refine ⟨node, rfl, fun hdir => ?_⟩
          rw [hfile] at hdir
          cases hdir
      | cons name names =>
          cases n with
          | file content => cases hfound
          | dir entries => cases hfile
  | cons name names ih =>
      intro place found hfound
      cases place with
      | nil => exact ⟨_, rfl, fun _ => rfl⟩
      | cons first place =>
          rw [at?] at hfound
          rcases Option.bind_eq_some_iff.mp hfound with ⟨child, hchild, hfound⟩
          rw [at?, child?_put]
          by_cases heq : first = name
          · subst heq
            rw [if_pos rfl, hchild, Option.getD_some, Option.bind_some]
            refine ih (fun old hold => h old ?_) place found hfound
            rw [at?, hchild]
            exact hold
          · rw [if_neg heq, hchild, Option.bind_some]
            exact ⟨found, hfound, id⟩

end Node

namespace FileTree

/-! ## Following names along places -/

/-- A stack of nodes that leads from the top down to its first node, one entry at a time. -/
inductive Trail (top : Node) : List (String × Node) → Prop
  | start (name : String) : Trail top [(name, top)]
  | step {n name : String} {node child : Node} {above : List (String × Node)} :
      Trail top ((n, node) :: above) → node.child? name = some child →
        Trail top ((name, child) :: (n, node) :: above)

theorem namesOf_cons_cons (first second : String × Node) (above : List (String × Node)) :
    namesOf (first :: second :: above) = namesOf (second :: above) ++ [first.1] := by
  unfold namesOf
  rw [List.map_cons, List.reverse_cons, List.drop_append_of_le_length]
  rw [List.length_reverse, List.length_map, List.length_cons]
  omega

namespace Trail

variable {top top' : Node} {stack stack' found : List (String × Node)}

/-- The names of a stack are the place of its first node. -/
theorem at?_namesOf {n : String} {node : Node} {above : List (String × Node)}
    (h : Trail top ((n, node) :: above)) : top.at? (namesOf ((n, node) :: above)) = some node := by
  generalize hstack : (n, node) :: above = stack at h
  induction h generalizing n node above with
  | start name =>
      cases hstack
      rfl
  | step habove hchild ih =>
      cases hstack
      rw [namesOf_cons_cons, Node.at?_append, ih rfl, Option.bind_some, Node.at?, hchild]
      rfl

/-- Where everything is still there, what is at the place of a directory is a directory that has the
    same names. -/
theorem dir_within (hwithin : top.Within top') {n n' : String} {entries : List (String × Node)}
    {node' : Node} {above above' : List (String × Node)}
    (h : Trail top ((n, .dir entries) :: above)) (h' : Trail top' ((n', node') :: above'))
    (hnames : above'.map (·.1) = above.map (·.1)) (hname : n' = n) :
    ∃ entries', node' = .dir entries' ∧ ∀ name child, entries.lookup name = some child →
      ∃ child', entries'.lookup name = some child' := by
  have hplace : namesOf ((n', node') :: above') = namesOf ((n, .dir entries) :: above) := by
    unfold namesOf
    rw [List.map_cons, List.map_cons, hnames, hname]
  have hat := h.at?_namesOf
  have hat' := h'.at?_namesOf
  rw [hplace] at hat'
  rcases hwithin _ _ hat with ⟨same, hsame, hdir⟩
  rw [hat'] at hsame
  cases hsame
  cases node' with
  | file content => cases hdir rfl
  | dir entries' =>
      refine ⟨entries', rfl, fun name child hchild => ?_⟩
      have hbelow : top.at? (namesOf ((n, .dir entries) :: above) ++ [name]) = some child := by
        rw [Node.at?_append, hat, Option.bind_some, Node.at?, Node.child?, Node.entries, hchild]
        rfl
      rcases hwithin _ child hbelow with ⟨child', hchild', _⟩
      rw [Node.at?_append, hat', Option.bind_some, Node.at?] at hchild'
      rcases Option.bind_eq_some_iff.mp hchild' with ⟨found, hfound, _⟩
      exact ⟨found, hfound⟩

/-- One name leads on along both trails, if it does so along the first one. -/
theorem step_within (hwithin : top.Within top') {name : String} {names : List String}
    (h : Trail top stack) (h' : Trail top' stack') (hnames : stack'.map (·.1) = stack.map (·.1))
    (hfollow : follow stack (name :: names) = .ok found) :
    ∃ next next', Trail top next ∧ Trail top' next' ∧ next'.map (·.1) = next.map (·.1) ∧
      follow next names = .ok found ∧ follow stack' (name :: names) = follow next' names := by
  cases stack with
  | nil => cases h
  | cons first above =>
  cases stack' with
  | nil => cases h'
  | cons first' above' =>
  rcases first with ⟨n, node⟩
  rcases first' with ⟨n', node'⟩
  cases node with
  | file content => cases hfollow
  | dir entries =>
  rcases List.cons.inj hnames with ⟨hname, habove⟩
  rcases dir_within hwithin h h' habove hname with ⟨entries', rfl, hlookup⟩
  rw [follow] at hfollow ⊢
  split at hfollow
  · next hdot =>
      rw [if_pos hdot]
      exact ⟨_, _, h, h', hnames, hfollow, rfl⟩
  · next hdot =>
      rw [if_neg hdot]
      split at hfollow
      · next hdots =>
          -- Above the top there is the top again, in both.
          rw [if_pos hdots]
          cases h with
          | start _ =>
              cases h' with
              | start _ => exact ⟨_, _, .start _, .start _, hnames, hfollow, rfl⟩
              | step _ _ => cases habove
          | step hup _ =>
              cases h' with
              | start _ => cases habove
              | step hup' _ => exact ⟨_, _, hup, hup', habove, hfollow, rfl⟩
      · next hdots =>
          rw [if_neg hdots]
          split at hfollow
          · cases hfollow
          · next hshort =>
              rw [if_neg hshort]
              split at hfollow
              · next child hchild =>
                  rcases hlookup name child hchild with ⟨child', hchild'⟩
                  rw [hchild']
                  exact ⟨_, _, h.step hchild, h'.step hchild', congrArg (name :: ·) hnames,
                    hfollow, rfl⟩
              · cases hfollow

/-- Where everything is still there, names can be followed as before, and along the same places. -/
theorem follow_within (hwithin : top.Within top') {names : List String} (h : Trail top stack)
    (h' : Trail top' stack') (hnames : stack'.map (·.1) = stack.map (·.1))
    (hfollow : follow stack names = .ok found) :
    ∃ found', follow stack' names = .ok found' ∧ Trail top found ∧ Trail top' found' ∧
      found'.map (·.1) = found.map (·.1) := by
  induction names generalizing stack stack' with
  | nil =>
      have hsame : ∀ s : List (String × Node), follow s [] = .ok s := fun s => by cases s <;> rfl
      rw [hsame] at hfollow
      cases hfollow
      exact ⟨stack', hsame stack', h, h', hnames⟩
  | cons name names ih =>
      rcases step_within hwithin h h' hnames hfollow with
        ⟨next, next', hnext, hnext', hsame, hrest, heq⟩
      rw [heq]
      exact ih hnext hnext' hsame hrest

end Trail

variable {t : FileTree} {names place : List String} {node : Node}

/-- The place that names lead to from the top, and what is there. -/
def Leads (t : FileTree) (names place : List String) (node : Node) : Prop :=
  t.top.at? place = some node ∧ ∃ stack, t.walk names = .ok stack ∧ namesOf stack = place

/-- A tree with a node at a place. -/
def put (t : FileTree) (place : List String) (node : Node) : FileTree :=
  { t with top := t.top.put place node }

theorem Trail.of_walk {stack : List (String × Node)} (h : t.walk names = .ok stack) :
    Trail t.top stack := by
  have hwithin : t.top.Within t.top := fun _ node hnode => ⟨node, hnode, id⟩
  rcases Trail.follow_within hwithin (.start "") (.start "") rfl h with ⟨_, _, htrail, _⟩
  exact htrail

theorem exists_leads (h : t.nodeAt names = .ok node) : ∃ place, t.Leads names place node := by
  unfold nodeAt at h
  rcases bind_eq_ok h with ⟨stack, hwalk, h⟩
  cases stack with
  | nil => cases h
  | cons first above =>
      cases h
      exact ⟨_, (Trail.of_walk hwalk).at?_namesOf, _, hwalk, rfl⟩

namespace Leads

theorem nodeAt (h : t.Leads names place node) : t.nodeAt names = .ok node := by
  rcases h with ⟨hat, stack, hwalk, rfl⟩
  have htrail := Trail.of_walk hwalk
  cases stack with
  | nil => cases htrail
  | cons first above =>
      have hsame := htrail.at?_namesOf
      rw [hat] at hsame
      cases hsame
      unfold FileTree.nodeAt
      rw [hwalk]
      rfl

/-- A name leads from a place to the one below it with this name. -/
theorem child {name : String} {child : Node} (h : t.Leads names place node)
    (hname : Path.isName name = true) (hchild : node.childAt name = .ok child) :
    t.Leads (names ++ [name]) (place ++ [name]) child := by
  have hnode := h.nodeAt
  rcases h with ⟨hat, stack, hwalk, rfl⟩
  cases stack with
  | nil => cases Trail.of_walk hwalk
  | cons first above =>
      have hsame := (Trail.of_walk hwalk).at?_namesOf
      rw [hat] at hsame
      cases hsame
      have hnext : t.walk (names ++ [name]) = .ok ((name, child) :: first :: above) := by
        unfold walk at hwalk ⊢
        rw [follow_append, hwalk]
        refine (follow_singleton hname).trans ?_
        rw [hchild]
        rfl
      refine ⟨?_, _, hnext, namesOf_cons_cons _ _ _⟩
      rw [← namesOf_cons_cons (name, child)]
      exact (Trail.of_walk hnext).at?_namesOf

/-- To put a node below a place, where no directory is, leaves the place where it is. -/
theorem put (h : t.Leads names place node) (below : List String) (new : Node)
    (hfree : ∀ old, node.at? below = some old → old.isDir = false) :
    (t.put (place ++ below) new).Leads names place (node.put below new) := by
  rcases h with ⟨hat, stack, hwalk, rfl⟩
  have hwithin : t.top.Within (t.top.put (namesOf stack ++ below) new) := by
    refine Node.within_put new fun old hold => hfree old ?_
    rwa [Node.at?_append, hat] at hold
  rcases Trail.follow_within hwithin (.start "") (.start "") rfl hwalk with
    ⟨found, hfound, _, _, hnames⟩
  refine ⟨Node.at?_put hat below new, found, hfound, ?_⟩
  unfold namesOf
  rw [hnames]

end Leads

/-! ## Making directories -/

variable {name : String} {entries : List (String × Node)} {dir : Path}

/-- Nothing can be made where something is. -/
theorem makeDirAt_of_nodeAt (h : t.nodeAt names = .ok node) :
    t.makeDirAt names = .error .alreadyThere := by
  rcases List.eq_nil_or_concat names with rfl | ⟨front, name, rfl⟩
  · rcases t with ⟨top, start⟩
    cases top <;> rfl
  · unfold nodeAt at h
    rcases bind_eq_ok h with ⟨stack, hwalk, _⟩
    unfold walk at hwalk
    rw [List.concat_eq_append, follow_append] at hwalk
    rcases bind_eq_ok hwalk with ⟨before, hbefore, hlast⟩
    have hne := follow_ne_nil hbefore (List.cons_ne_nil _ _)
    unfold makeDirAt walk
    rw [List.concat_eq_append, List.dropLast_concat, List.getLast?_concat, hbefore]
    cases before with
    | nil => cases hne rfl
    | cons first above =>
    rcases first with ⟨n, last⟩
    cases last with
    | file content => cases hlast
    | dir entries =>
        dsimp only [bind, Except.bind]
        -- The last name leads on, so it is there, or is one that is always there.
        rw [follow] at hlast
        split at hlast
        · next hdot =>
            rw [hdot, Bool.true_or, Bool.true_or, if_pos rfl]
            rfl
        · next hdot =>
            split at hlast
            · next hdots =>
                rw [hdots, Bool.or_true, Bool.true_or, if_pos rfl]
                rfl
            · split at hlast
              · cases hlast
              · split at hlast
                · next child hchild =>
                    rw [hchild, Option.isSome_some, Bool.or_true, if_pos rfl]
                    rfl
                · cases hlast

theorem dirRoute_of_closed (hdir : dir.Closed) : t.dirRoute dir = t.route dir := by
  unfold dirRoute
  dsimp only
  rw [hdir.2, Bool.false_and, if_neg Bool.false_ne_true]

/-- Where there is a directory, nothing has to be made. -/
theorem makeDirs_of_node? (hdir : dir.Closed) (h : t.node? dir = .ok (.dir entries)) :
    t.makeDirs dir = .ok t := by
  unfold node? at h
  rcases bind_eq_ok h with ⟨_, hcheck, hnode⟩
  unfold makeDirs
  rw [if_neg fun hempty => hdir.1 (String.isEmpty_iff.mp hempty), hcheck, dirRoute_of_closed hdir]
  have hthere : t.isDirAt (t.route dir) = true := by
    unfold isDirAt
    rw [hnode]
    rfl
  have hmade := makeDirAt_of_nodeAt hnode
  rw [← List.reverse_reverse (t.route dir)] at hthere hmade
  generalize (t.route dir).reverse = names at hthere hmade ⊢
  change t.makeDirsAt names = .ok t
  cases names with
  | nil => rfl
  | cons last above =>
      rw [makeDirsAt, hmade]
      exact if_pos hthere

/-- To make a directory in one that is there. -/
theorem makeDirAt_concat (h : t.Leads names place (.dir entries))
    (hname : Path.isName name = true) : t.makeDirAt (names ++ [name]) =
      if (entries.lookup name).isSome then .error .alreadyThere
      else if name.utf8ByteSize > maxName then .error .nameTooLong
      else .ok (t.put (place ++ [name]) .emptyDir) := by
  rcases Path.isName_iff.mp hname with ⟨_, hdot, hdots, _⟩
  rcases h with ⟨hat, stack, hwalk, rfl⟩
  have htrail := Trail.of_walk hwalk
  unfold makeDirAt
  rw [List.dropLast_concat, List.getLast?_concat, hwalk]
  cases stack with
  | nil => cases htrail
  | cons first above =>
      have hsame := htrail.at?_namesOf
      rw [hat] at hsame
      rcases first with ⟨n, last⟩
      cases hsame
      dsimp only [bind, Except.bind]
      rw [beq_false_of_ne hdot, beq_false_of_ne hdots, Bool.false_or, Bool.false_or]
      rfl

/-- What a directory was made in is a directory. -/
theorem leads_of_makeDirAt {t' : FileTree} (h : t.makeDirAt (names ++ [name]) = .ok t') :
    ∃ place entries, t.Leads names place (.dir entries) := by
  unfold makeDirAt at h
  rw [List.dropLast_concat, List.getLast?_concat] at h
  rcases bind_eq_ok h with ⟨stack, hwalk, h⟩
  have htrail := Trail.of_walk hwalk
  cases stack with
  | nil => cases htrail
  | cons first above =>
      rcases first with ⟨n, last⟩
      cases last with
      | file content => cases h
      | dir entries => exact ⟨_, entries, htrail.at?_namesOf, _, hwalk, rfl⟩

/-- What a directory was made under is a name, even if it is the last part of a path that leads
    elsewhere. -/
theorem isName_of_makeDir {t' : FileTree} (hdir : dir.Closed) (hpart : Path.IsPart name)
    (h : t.makeDir (Path.join dir name) = .ok t') : Path.isName name = true := by
  unfold makeDir makeDirAt at h
  rw [dirRoute_of_closed (Path.closed_join hdir hpart), route_join hdir hpart,
    List.dropLast_concat, List.getLast?_concat] at h
  rcases bind_eq_ok h with ⟨_, _, h⟩
  rcases bind_eq_ok h with ⟨stack, _, h⟩
  cases stack with
  | nil => cases h
  | cons first above =>
  rcases first with ⟨n, node⟩
  cases node with
  | file content => cases h
  | dir entries =>
  refine Path.isName_iff.mpr ⟨hpart.1, ?_, ?_, hpart.2⟩
  · rintro rfl
    cases h
  · rintro rfl
    cases h

/-- How a directory is made under a name in one that is there. -/
theorem makeDir_join (hdir : dir.Closed) (hname : Path.isName name = true)
    (h : t.Leads (t.route dir) place (.dir entries)) :
    t.makeDir (Path.join dir name) = checkPath (Path.join dir name) >>= fun _ =>
      if (entries.lookup name).isSome then .error .alreadyThere
      else if name.utf8ByteSize > maxName then .error .nameTooLong
      else .ok (t.put (place ++ [name]) .emptyDir) := by
  have hpart := Path.isPart_of_isName hname
  unfold makeDir
  rw [dirRoute_of_closed (Path.closed_join hdir hpart), route_join hdir hpart,
    makeDirAt_concat h hname]

theorem nodeAt_of_node? {p : Path} (h : t.node? p = .ok node) :
    t.nodeAt (t.route p) = .ok node := by
  unfold node? at h
  rcases bind_eq_ok h with ⟨_, _, hnode⟩
  exact hnode

/-- What is at a joint path depends on the node in front of it. -/
theorem node?_join_of_node? {t' : FileTree} {entries' : List (String × Node)} (hdir : dir.Closed)
    (hname : Path.isName name = true) (h : t.node? dir = .ok (.dir entries))
    (h' : t'.node? dir = .ok (.dir entries'))
    (hsame : entries'.lookup name = entries.lookup name) :
    t'.node? (Path.join dir name) = t.node? (Path.join dir name) := by
  rw [node?_join hdir hname, node?_join hdir hname, nodeAt_of_node? h, nodeAt_of_node? h']
  dsimp only [bind, Except.bind]
  unfold Node.childAt
  dsimp only
  rw [hsame]

theorem checkPath_ne_notFound (hdir : dir.Closed) : checkPath dir ≠ .error .notFound := by
  intro hcheck
  unfold checkPath at hcheck
  split at hcheck
  · cases hcheck
  · split at hcheck
    · next hempty => exact hdir.1 (String.isEmpty_iff.mp hempty)
    · split at hcheck <;> cases hcheck

/-- A directory can be made where nothing is found, and nowhere else. -/
theorem exists_makeDir_iff (hdir : dir.Closed) (hname : Path.isName name = true)
    (h : t.node? dir = .ok (.dir entries)) :
    (∃ t', t.makeDir (Path.join dir name) = .ok t') ↔
      t.node? (Path.join dir name) = .error .notFound := by
  have hnode := nodeAt_of_node? h
  rcases exists_leads hnode with ⟨place, hleads⟩
  rw [makeDir_join hdir hname hleads, node?_join hdir hname, hnode]
  have hcheck := checkPath_ne_notFound (Path.closed_join hdir (Path.isPart_of_isName hname))
  cases hpath : checkPath (Path.join dir name) with
  | error e =>
      rw [hpath] at hcheck
      refine iff_of_false ?_ fun hnone => ?_
      · rintro ⟨t', ht'⟩
        cases ht'
      · cases hnone
        exact hcheck rfl
  | ok u =>
      dsimp only [bind, Except.bind]
      unfold Node.childAt
      cases hlookup : entries.lookup name <;> by_cases hlong : name.utf8ByteSize > maxName <;>
        simp [hlong, hlookup]

/-- How a file is written under a name in a directory that is there. -/
theorem write_join (hdir : dir.Closed) (hname : Path.isName name = true)
    (h : t.Leads (t.route dir) place (.dir entries)) (content : Content) :
    t.write (Path.join dir name) content = checkPath (Path.join dir name) >>= fun _ =>
      if name.utf8ByteSize > maxName then .error .nameTooLong
      else match entries.lookup name with
        | some (.dir _) => .error .isDirectory
        | _ => .ok (t.put (place ++ [name]) (.file content)) := by
  rcases Path.isName_iff.mp hname with ⟨_, hdot, hdots, _⟩
  rcases h with ⟨hat, stack, hwalk, rfl⟩
  have htrail := Trail.of_walk hwalk
  have hpart := Path.isPart_of_isName hname
  unfold write
  rw [dirRoute_of_closed (Path.closed_join hdir hpart), route_join hdir hpart]
  dsimp only
  rw [List.dropLast_concat, List.getLast?_concat, hwalk]
  cases stack with
  | nil => cases htrail
  | cons first above =>
      have hsame := htrail.at?_namesOf
      rw [hat] at hsame
      rcases first with ⟨n, last⟩
      cases hsame
      dsimp only [bind, Except.bind]
      rw [beq_false_of_ne hdot, beq_false_of_ne hdots, Path.endsOpen_join hdir hpart, Bool.false_or,
        Bool.false_or, if_neg Bool.false_ne_true]
      rfl

/-- A file that was put under a name is where the name leads. -/
theorem Leads.nodeAt_put (h : t.Leads names place (.dir entries)) (hdot : name ≠ ".")
    (hdots : name ≠ "..") (hshort : name.utf8ByteSize ≤ maxName)
    (hfree : ∀ inner, entries.lookup name ≠ some (.dir inner)) (content : Content) :
    (t.put (place ++ [name]) (.file content)).nodeAt (names ++ [name]) = .ok (.file content) := by
  have hput := h.put [name] (.file content) fun old hold => by
    rcases Option.bind_eq_some_iff.mp hold with ⟨child, hchild, hsame⟩
    cases hsame
    cases old with
    | file _ => rfl
    | dir inner => exact absurd hchild (hfree inner)
  have hnode := hput.nodeAt
  unfold FileTree.nodeAt at hnode ⊢
  rcases bind_eq_ok hnode with ⟨stack, hwalk, hlast⟩
  cases stack with
  | nil => cases hlast
  | cons first above =>
      rcases first with ⟨n, last⟩
      cases hlast
      unfold walk at hwalk ⊢
      rw [follow_append, hwalk]
      dsimp only [bind, Except.bind]
      rw [follow_singleton_of_ne hdot hdots]
      unfold Node.put Node.entries Node.childAt
      dsimp only
      rw [if_neg (Nat.not_lt.mpr hshort), Node.lookup_putEntry, if_pos rfl]
      rfl

/-- Where a file was written: behind a name that stands last in the path, in a directory, and not in the
    place of one. -/
theorem put_of_write {t' : FileTree} {p : Path} {content : Content}
    (h : t.write p content = .ok t') :
    checkPath p = .ok () ∧ ∃ front name place entries, t.route p = front ++ [name] ∧
      name ≠ "." ∧ name ≠ ".." ∧ name.utf8ByteSize ≤ maxName ∧
      t.Leads front place (.dir entries) ∧ (∀ inner, entries.lookup name ≠ some (.dir inner)) ∧
      t' = t.put (place ++ [name]) (.file content) := by
  unfold write at h
  rcases bind_eq_ok h with ⟨_, hcheck, h⟩
  rcases bind_eq_ok h with ⟨stack, hwalk, h⟩
  have htrail := Trail.of_walk hwalk
  rcases stack with _ | ⟨⟨n, last⟩, above⟩
  · cases htrail
  rcases List.eq_nil_or_concat (t.dirRoute p) with hnil | ⟨front, name, hroute⟩
  · rw [hnil] at h
    cases last <;> cases h
  rw [List.concat_eq_append] at hroute
  rw [hroute, List.dropLast_concat] at hwalk
  rw [hroute, List.getLast?_concat] at h
  cases last with
  | file _ => cases h
  | dir entries =>
      dsimp only at h
      -- What is left in the end is that nothing was thrown on the way.
      rcases Bool.eq_false_or_eq_true (name == "." || name == ".." || Path.endsOpen p) with
        hopen | hopen
      · rw [if_pos hopen] at h
        cases h
      rw [hopen, if_neg Bool.false_ne_true] at h
      simp only [Bool.or_eq_false_iff, beq_eq_false_iff_ne] at hopen
      rcases hopen with ⟨⟨hdot, hdots⟩, hclosed⟩
      unfold dirRoute at hroute
      dsimp only at hroute
      rw [hclosed, Bool.false_and, if_neg Bool.false_ne_true] at hroute
      split at h
      · cases h
      · next hshort =>
          split at h
          · cases h
          · next hfree =>
              cases h
              exact ⟨hcheck, front, name, _, entries, hroute, hdot, hdots, Nat.not_lt.mp hshort,
                ⟨htrail.at?_namesOf, _, hwalk, rfl⟩, fun inner hinner => hfree inner hinner, rfl⟩

/-- What was written at a path is read there, whatever the path looks like. -/
theorem read_write {t' : FileTree} {p : Path} {content : Content}
    (h : t.write p content = .ok t') : t'.read p = .ok content := by
  rcases put_of_write h with
    ⟨hcheck, front, name, place, entries, hroute, hdot, hdots, hshort, hleads, hfree, rfl⟩
  have hsame : (t.put (place ++ [name]) (.file content)).route p = t.route p := rfl
  unfold read node?
  rw [hcheck, hsame, hroute]
  exact congrArg (· >>= _) (hleads.nodeAt_put hdot hdots hshort hfree content)

/-! ## Directories that were gained -/

/-- Under a name that was not there, a directory was made last, and has some files. -/
structure Gained (t : FileTree) (dir : Path) (entries : List (String × Node)) (name : String)
    (files : List (String × Node)) : Prop where
  new : entries.lookup name = none
  leads : ∃ place, t.Leads (t.route dir) place (.dir (entries ++ [(name, .dir files)]))

/-- A directory that was made is gained. -/
theorem Gained.of_makeDir {t' : FileTree} (hdir : dir.Closed) (hname : Path.isName name = true)
    (h : t.makeDir (Path.join dir name) = .ok t') :
    ∃ entries, t.nodeAt (t.route dir) = .ok (.dir entries) ∧
      checkPath (Path.join dir name) = .ok () ∧ name.utf8ByteSize ≤ maxName ∧
      t'.Gained dir entries name [] := by
  have hpart := Path.isPart_of_isName hname
  have hmade : t.makeDirAt (t.route dir ++ [name]) = .ok t' := by
    unfold makeDir at h
    rcases bind_eq_ok h with ⟨_, _, h⟩
    rwa [dirRoute_of_closed (Path.closed_join hdir hpart), route_join hdir hpart] at h
  rcases leads_of_makeDirAt hmade with ⟨place, entries, hleads⟩
  rw [makeDir_join hdir hname hleads] at h
  rcases bind_eq_ok h with ⟨_, hcheck, h⟩
  split at h
  · cases h
  · next hnew =>
      split at h
      · cases h
      · next hshort =>
          cases h
          rw [Bool.not_eq_true, Option.isSome_eq_false_iff, Option.isNone_iff_eq_none] at hnew
          refine ⟨entries, hleads.nodeAt, hcheck, Nat.le_of_not_lt hshort, hnew, place, ?_⟩
          rw [← Node.putEntry_new hnew]
          refine hleads.put [name] .emptyDir fun old hold => ?_
          rw [Node.at?, Node.child?, Node.entries, hnew] at hold
          cases hold

namespace Gained

variable {files : List (String × Node)}

theorem nodeAt (h : t.Gained dir entries name files) :
    t.nodeAt (t.route dir) = .ok (.dir (entries ++ [(name, .dir files)])) := by
  rcases h.leads with ⟨place, hleads⟩
  exact hleads.nodeAt

/-- A directory is gained only by a change. -/
theorem nodeAt_ne (h : t.Gained dir entries name files) :
    t.nodeAt (t.route dir) ≠ .ok (.dir entries) := by
  intro hsame
  rw [h.nodeAt, Except.ok.injEq, Node.dir.injEq] at hsame
  have hlength := congrArg List.length hsame
  rw [List.length_append, List.length_singleton] at hlength
  omega

theorem lookup_self (h : t.Gained dir entries name files) :
    (entries ++ [(name, Node.dir files)]).lookup name = some (.dir files) := by
  rw [List.lookup_append, h.new, Option.none_or, Node.lookup_cons_eq, if_pos rfl]

/-- All other names are as they were. -/
theorem lookup_of_ne {other : String} (hne : other ≠ name) :
    (entries ++ [(name, Node.dir files)]).lookup other = entries.lookup other := by
  rw [List.lookup_append, Node.lookup_cons_eq, if_neg hne, List.lookup_nil, Option.or_none]

/-- Where nothing was found, a directory that is gained is found. -/
theorem node?_eq {t' : FileTree} (h : t'.Gained dir entries name files) (hdir : dir.Closed)
    (hname : Path.isName name = true) (hthere : t.node? dir = .ok (.dir entries))
    (hfree : t.node? (Path.join dir name) = .error .notFound) :
    t'.node? (Path.join dir name) = .ok (.dir files) := by
  have hcheck := checkPath_ne_notFound (Path.closed_join hdir (Path.isPart_of_isName hname))
  rw [node?_join hdir hname, nodeAt_of_node? hthere] at hfree
  rw [node?_join hdir hname, h.nodeAt]
  cases hpath : checkPath (Path.join dir name) with
  | error e =>
      rw [hpath] at hfree hcheck
      cases hfree
      exact absurd rfl hcheck
  | ok u =>
      rw [hpath] at hfree
      dsimp only [bind, Except.bind] at hfree ⊢
      unfold Node.childAt at hfree ⊢
      dsimp only at hfree ⊢
      split at hfree
      · cases hfree
      · next hshort => rw [if_neg hshort, h.lookup_self]

theorem childAt_self (h : t.Gained dir entries name files) (hshort : name.utf8ByteSize ≤ maxName) :
    (Node.dir (entries ++ [(name, .dir files)])).childAt name = .ok (.dir files) := by
  unfold Node.childAt
  dsimp only
  rw [if_neg (Nat.not_lt.mpr hshort), h.lookup_self]

theorem nodeAt_join (h : t.Gained dir entries name files) (hdir : dir.Closed)
    (hname : Path.isName name = true) (hshort : name.utf8ByteSize ≤ maxName) :
    t.nodeAt (t.route (Path.join dir name)) = .ok (.dir files) := by
  rcases h.leads with ⟨place, hleads⟩
  rw [route_join hdir (Path.isPart_of_isName hname)]
  exact (hleads.child hname (h.childAt_self hshort)).nodeAt

/-- What is written there is one of its files. -/
theorem write {t' : FileTree} {file : String} {content : Content}
    (h : t.Gained dir entries name files) (hdir : dir.Closed) (hname : Path.isName name = true)
    (hshort : name.utf8ByteSize ≤ maxName) (hfile : Path.isName file = true)
    (hwrite : t.write (Path.join (Path.join dir name) file) content = .ok t') :
    t'.Gained dir entries name (Node.putEntry file (.file content) files) ∧
      checkPath (Path.join (Path.join dir name) file) = .ok () ∧
      file.utf8ByteSize ≤ maxName := by
  have hpart := Path.isPart_of_isName hname
  rcases h.leads with ⟨place, hleads⟩
  have hbelow := hleads.child hname (h.childAt_self hshort)
  rw [← route_join hdir hpart] at hbelow
  rw [write_join (Path.closed_join hdir hpart) hfile hbelow] at hwrite
  rcases bind_eq_ok hwrite with ⟨_, hcheck, hwrite⟩
  split at hwrite
  · cases hwrite
  · next hlong =>
      split at hwrite
      · cases hwrite
      · next hfree =>
          cases hwrite
          refine ⟨⟨h.new, place, ?_⟩, hcheck, Nat.le_of_not_lt hlong⟩
          have hput := hleads.put [name, file] (.file content) fun old hold => by
            rw [Node.at?, Node.child?, Node.entries, h.lookup_self, Option.bind_some, Node.at?,
              Node.child?, Node.entries] at hold
            rcases Option.bind_eq_some_iff.mp hold with ⟨found, hfound, hold⟩
            cases hold
            cases old with
            | file _ => rfl
            | dir _ => exact absurd hfound (hfree _)
          rw [List.append_assoc]
          have hnode : (Node.dir (entries ++ [(name, .dir files)])).put [name, file]
              (.file content) =
                .dir (entries ++ [(name, .dir (Node.putEntry file (.file content) files))]) := by
            rw [Node.put, Node.child?, Node.entries, h.lookup_self, Node.putEntry_last h.new]
            rfl
          rw [hnode] at hput
          exact hput

/-- Its files are found there. -/
theorem readText_join {file text : String} (h : t.Gained dir entries name files)
    (hdir : dir.Closed) (hname : Path.isName name = true) (hshort : name.utf8ByteSize ≤ maxName)
    (hfile : Path.isName file = true) (hfileShort : file.utf8ByteSize ≤ maxName)
    (hcheck : checkPath (Path.join (Path.join dir name) file) = .ok ())
    (hlookup : files.lookup file = some (.file (.text text))) :
    t.readText (Path.join (Path.join dir name) file) = .ok text := by
  have hpart := Path.isPart_of_isName hname
  unfold readText read
  rw [node?_join (Path.closed_join hdir hpart) hfile, hcheck, h.nodeAt_join hdir hname hshort]
  dsimp only [bind, Except.bind]
  unfold Node.childAt
  dsimp only
  rw [if_neg (Nat.not_lt.mpr hfileShort), hlookup]
  rfl

end Gained

end FileTree

end PixelEffects
