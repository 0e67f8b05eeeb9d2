import JobShell.Proofs.SystemCalls

/-!
The paths of directories. Nothing but the removal of a directory changes the path of one: what is
added to a directory comes behind what is there, and what is taken out is no directory.
-/
namespace JobShell.Kernel

/-- It lists names, or it did before it was removed. -/
def IsTree (k : Kernel) (id : NodeId) : Prop :=
  ∃ entries parent, (k.node? id).map Node.content = some (.directory entries parent)

/-- Every directory is where it was, under the same name. -/
structure SameTree (k k' : Kernel) : Prop where
  size : k.nodes.size ≤ k'.nodes.size
  processes : ∀ id, (k'.node? id).map Node.content = some .processes ↔
    (k.node? id).map Node.content = some .processes
  directories : ∀ id node entries parent, k.node? id = some node →
    node.content = .directory entries parent →
    ∃ node' entries', k'.node? id = some node' ∧ node'.content = .directory entries' parent ∧
      node'.removed = node.removed ∧
      ∀ child entry, k.IsTree child → entries.find? (fun entry => entry.2 == child) = some entry →
        entries'.find? (fun entry => entry.2 == child) = some entry

section

variable {k k' k'' : Kernel}

theorem SameTree.of_nodes (h : k'.nodes = k.nodes) : SameTree k k' := by
  have hnode (id : NodeId) : k'.node? id = k.node? id := by rw [node?, h, node?]
  refine ⟨by rw [h], fun id => by rw [hnode], fun id node entries parent hid hcontent => ?_⟩
  exact ⟨node, entries, (hnode id).trans hid, hcontent, rfl, fun _ _ _ h => h⟩

theorem SameTree.isTree (h : SameTree k k') {id : NodeId} (hid : k.IsTree id) : k'.IsTree id := by
  obtain ⟨entries, parent, hcontent⟩ := hid
  obtain ⟨node, hnode, hcontent⟩ := Option.map_eq_some_iff.mp hcontent
  obtain ⟨node', entries', hnode', hcontent', -⟩ :=
    h.directories id node entries parent hnode hcontent
  exact ⟨entries', parent, Option.map_eq_some_iff.mpr ⟨node', hnode', hcontent'⟩⟩

theorem SameTree.trans (h : SameTree k k') (h' : SameTree k' k'') : SameTree k k'' where
  size := Nat.le_trans h.size h'.size
  processes id := (h'.processes id).trans (h.processes id)
  directories id node entries parent hid hcontent := by
    obtain ⟨node', entries', hid', hcontent', hremoved', hfind'⟩ :=
      h.directories id node entries parent hid hcontent
    obtain ⟨node'', entries'', hid'', hcontent'', hremoved'', hfind''⟩ :=
      h'.directories id node' entries' parent hid' hcontent'
    exact ⟨node'', entries'', hid'', hcontent'', hremoved''.trans hremoved',
      fun child entry hchild hentry =>
        hfind'' child entry (h.isTree hchild) (hfind' child entry hchild hentry)⟩

/-- The way up from a directory stays, and there may be more room for it. -/
theorem SameTree.pathOf (h : SameTree k k') {depth depth' : Nat} (hdepth : depth ≤ depth')
    {id : NodeId} {suffix path : String} (hpath : pathOf k depth id suffix = some path) :
    pathOf k' depth' id suffix = some path := by
  induction depth generalizing depth' id suffix with
  | zero =>
    unfold Kernel.pathOf at hpath ⊢
    split at hpath
    · rename_i hroot
      rw [if_pos hroot]
      exact hpath
    · cases hpath
  | succ depth ih =>
    obtain ⟨depth', rfl⟩ : ∃ n, depth' = n + 1 := ⟨depth' - 1, by omega⟩
    unfold Kernel.pathOf at hpath ⊢
    split at hpath
    · rename_i hroot
      rw [if_pos hroot]
      exact hpath
    · rename_i hroot
      rw [if_neg hroot]
      split at hpath
      · rename_i entries parent permissions hdepth' hnode
        obtain rfl := Nat.succ.inj hdepth'
        have hchild : k.IsTree id := ⟨entries, parent, by rw [hnode, Option.map_some]⟩
        obtain ⟨⟨_, permissions', _⟩, entries', hid', rfl, rfl, -⟩ :=
          h.directories id _ _ _ hnode rfl
        rw [hid']
        dsimp only
        split at hpath
        · rename_i names up hparent
          obtain ⟨above, habove, hcontent⟩ := Option.map_eq_some_iff.mp hparent
          obtain ⟨above', names', habove', hcontent', -, hfind⟩ :=
            h.directories parent _ _ _ habove hcontent
          rw [habove', Option.map_some, hcontent']
          dsimp only
          split at hpath
          · rename_i name _ hname
            rw [hfind id _ hchild hname]
            exact ih (Nat.le_of_succ_le_succ hdepth) hpath
          · cases hpath
        · cases hpath
      · cases hpath

/-- Whoever has a path keeps it. -/
theorem SameTree.directoryPath (h : SameTree k k') {place : Place} {path : String}
    (hpath : k.directoryPath place = some path) : k'.directoryPath place = some path := by
  cases place with
  | node id =>
    unfold Kernel.directoryPath at hpath ⊢
    dsimp only at hpath ⊢
    split at hpath
    · rename_i hprocesses
      rw [(h.processes id).mpr hprocesses]
      exact hpath
    · rename_i hother
      split
      · rename_i hprocesses
        exact absurd ((h.processes id).mp hprocesses) hother
      · exact h.pathOf h.size hpath
  | processDir pid | processFds pid => exact hpath
  | processFile pid file | pipe id => cases hpath

theorem node?_setNode (id other : NodeId) (new : Node) : (k.setNode id new).node? other =
    if id = other then (k.node? id).map fun _ => new else k.node? other := by
  unfold setNode node?
  dsimp only
  rw [Array.getElem?_setIfInBounds]
  split
  · rename_i heq
    split
    · rename_i hlt
      rw [Array.getElem?_eq_getElem hlt, Option.map_some]
    · rename_i hnot
      rw [Array.getElem?_eq_none (Nat.le_of_not_lt hnot), Option.map_none]
  · rfl

/-- A node that is no directory may get another content. -/
theorem sameTree_setNode {id : NodeId} {node new : Node} (hid : k.node? id = some node)
    (hold : ∀ entries parent, node.content = .directory entries parent →
      ∃ entries', new.content = .directory entries' parent ∧ new.removed = node.removed ∧
        ∀ child entry, k.IsTree child →
          entries.find? (fun entry => entry.2 == child) = some entry →
          entries'.find? (fun entry => entry.2 == child) = some entry)
    (hprocesses : new.content = .processes ↔ node.content = .processes) :
    SameTree k (k.setNode id new) where
  size := by simp [setNode]
  processes other := by
    rw [node?_setNode]
    split
    · rename_i heq
      subst heq
      rw [hid]
      simpa using hprocesses
    · rfl
  directories other old entries parent hold' hcontent := by
    rw [node?_setNode]
    split
    · rename_i heq
      subst heq
      obtain rfl := Option.some.inj (hid.symm.trans hold')
      obtain ⟨entries', hcontent', hremoved, hfind⟩ := hold entries parent hcontent
      exact ⟨new, entries', by rw [hid, Option.map_some], hcontent', hremoved, hfind⟩
    · exact ⟨old, entries, hold', hcontent, rfl, fun _ _ _ h => h⟩

theorem node?_addNode {id : NodeId} {old : Node} (hid : k.node? id = some old) (node : Node) :
    (k.addNode node).2.node? id = some old := by
  obtain ⟨hlt, hget⟩ := Array.getElem?_eq_some_iff.mp hid
  exact (Array.getElem?_push_lt hlt).trans (congrArg some hget)

theorem sameTree_addNode {node : Node} (hnode : node.content ≠ .processes) :
    SameTree k (k.addNode node).2 := by
  refine ⟨by simp [addNode], fun id => ⟨fun h => ?_, fun h => ?_⟩, ?_⟩
  · obtain ⟨old, hold, hcontent⟩ := Option.map_eq_some_iff.mp h
    rw [node?, addNode, Array.getElem?_push] at hold
    split at hold
    · cases hold
      exact absurd hcontent hnode
    · exact Option.map_eq_some_iff.mpr ⟨old, hold, hcontent⟩
  · obtain ⟨old, hold, hcontent⟩ := Option.map_eq_some_iff.mp h
    exact Option.map_eq_some_iff.mpr ⟨old, node?_addNode hold node, hcontent⟩
  · intro id old entries parent hid hcontent
    exact ⟨old, entries, node?_addNode hid node, hcontent, rfl, fun _ _ _ h => h⟩

/-- A new name comes behind those that a directory lists. -/
theorem sameTree_append {id : NodeId} {entries : List (String × NodeId)} {parent : NodeId}
    {permissions : Nat} {removed : Bool} (entry : String × NodeId)
    (hid : k.node? id = some ⟨.directory entries parent, permissions, removed⟩) :
    SameTree k (k.setNode id ⟨.directory (entries ++ [entry]) parent, permissions, removed⟩) := by
  refine sameTree_setNode hid (fun entries' parent' hcontent => ?_) (by simp)
  obtain ⟨rfl, rfl⟩ := Content.directory.inj hcontent
  refine ⟨entries ++ [entry], rfl, rfl, fun child found _ hfound => ?_⟩
  rw [List.find?_append, hfound, Option.some_or]

theorem node?_unlinkNode (id other : NodeId) :
    (k.unlinkNode id).node? other = (k.node? other).map (Node.without id) := by
  simp only [unlinkNode, node?, Array.getElem?_map]

/-- What is no directory may lose its name. -/
theorem sameTree_unlinkNode {id : NodeId} (hid : ¬ k.IsTree id) : SameTree k (k.unlinkNode id) where
  size := by simp [unlinkNode]
  processes other := by
    rw [node?_unlinkNode]
    cases k.node? other with
    | none => rfl
    | some node =>
      obtain ⟨content, permissions, removed⟩ := node
      cases content <;> simp [Node.without]
  directories other node entries parent hother hcontent := by
    refine ⟨node.without id, entries.filter fun entry => entry.2 != id, ?_, ?_, ?_, ?_⟩
    · rw [node?_unlinkNode, hother, Option.map_some]
    · simp only [Node.without, hcontent]
    · simp only [Node.without, hcontent]
    · intro child entry hchild hentry
      have hne : child ≠ id := fun heq => hid (heq ▸ hchild)
      rw [List.find?_filter, ← hentry]
      congr 1
      funext entry
      by_cases heq : entry.2 = child <;> simp [heq, hne]

variable {p : Process}

theorem nodes_grant (file : OpenFile) (flags : OpenFlags) :
    (k.grant p file flags).kernel.nodes = k.nodes := by
  unfold grant
  split <;> rfl

theorem nodes_openFifo (pipe : PipeId) (flags : OpenFlags) :
    (k.openFifo p pipe flags).kernel.nodes = k.nodes := by
  unfold openFifo
  split
  · rfl
  · rfl
  · split
    · extract_lets ready
      split <;> rfl
    · extract_lets reads writes k₁ seen ready
      dsimp only
      split <;> rfl

/-- A file stays a file, whatever is written to it. -/
theorem sameTree_setFile {id : NodeId} {node new : Node} {old data : ByteArray}
    (hid : k.node? id = some node) (hold : node.content = .file old)
    (hnew : new.content = .file data) : SameTree k (k.setNode id new) := by
  refine sameTree_setNode hid (fun entries parent hcontent => ?_) (by simp [hold, hnew])
  rw [hold] at hcontent
  cases hcontent

theorem sameTree_openPlace (place : Place) (flags : OpenFlags) :
    SameTree k (k.openPlace p place flags).kernel := by
  have hgrant (file : OpenFile) : SameTree k (k.grant p file flags).kernel :=
    .of_nodes (nodes_grant file flags)
  have hfifo (pipe : PipeId) : SameTree k (k.openFifo p pipe flags).kernel :=
    .of_nodes (nodes_openFifo pipe flags)
  have hsame : SameTree k k := .of_nodes rfl
  unfold openPlace
  split
  · split
    · exact hsame
    · exact hgrant _
  · split
    · exact hgrant _
    · exact hfifo _
    · exact hsame
    · exact hsame
    · extract_lets file
      split
      · exact hfifo _
      · split
        · exact hgrant _
        · exact hsame
      · exact hgrant _
      · rename_i id _ old hold
        split
        · exact hsame
        · extract_lets data k₁
          have hwritten : SameTree k k₁ := by
            unfold k₁
            split
            · rename_i node hnode
              rw [hnode] at hold
              exact sameTree_setFile hnode (Option.some.inj hold) rfl
            · exact hsame
          exact hwritten.trans (.of_nodes (nodes_grant file flags))
      · split
        · exact hgrant _
        · exact hsame
      · exact hsame

theorem sameTree_link (parent : NodeId) (name : String) {node : Node}
    (hnode : node.content ≠ .processes) : SameTree k (k.link parent name node).2 := by
  have hadded : SameTree k (k.addNode node).2 := sameTree_addNode hnode
  unfold link
  dsimp only
  split
  · rename_i hparent
    exact hadded.trans (sameTree_append _ hparent)
  · exact hadded

theorem sameTree_openPath (path : String) (flags : OpenFlags) (permissions : Nat) :
    SameTree k (k.openPath p path flags permissions).kernel := by
  have hsame : SameTree k k := .of_nodes rfl
  unfold openPath
  split
  · exact hsame
  · exact sameTree_openPlace _ flags
  · split
    · exact hsame
    · split
      · exact hsame
      · split
        · exact hsame
        · split
          · exact hsame
          · exact (sameTree_link _ _ (by simp)).trans (sameTree_openPlace _ flags)

theorem sameTree_makeDirectory (path : String) (permissions : Nat) :
    SameTree k (k.makeDirectory p path permissions).2 := by
  have hsame : SameTree k k := .of_nodes rfl
  unfold makeDirectory
  split
  · exact hsame
  · exact hsame
  · split
    · rename_i hparent
      exact (sameTree_addNode (by simp)).trans (sameTree_append _ (node?_addNode hparent _))
    · exact hsame

theorem sameTree_unlink (path : String) : SameTree k (k.unlink p path).2 := by
  have hsame : SameTree k k := .of_nodes rfl
  unfold unlink
  split
  · exact hsame
  · exact hsame
  · split
    · exact hsame
    · rename_i hfile
      split
      · refine sameTree_unlinkNode fun ⟨entries, parent, hcontent⟩ => hfile ?_
        simp only [isDirectory, hcontent]
      · exact hsame

theorem sameTree_changePermissions (fd : Fd) (permissions : Nat) :
    SameTree k (k.changePermissions p fd permissions).2 := by
  unfold changePermissions
  split
  · exact .of_nodes rfl
  · split
    · rename_i node hnode
      exact sameTree_setNode hnode
        (fun entries parent hcontent => ⟨entries, hcontent, rfl, fun _ _ _ h => h⟩) Iff.rfl
    · exact .of_nodes rfl

theorem sameTree_write (hk : k.Sound) (fd : Fd) (data : ByteArray) :
    SameTree k (k.write p fd data).kernel := by
  have hsame : SameTree k k := .of_nodes rfl
  unfold write
  split
  · exact hsame
  · split
    · exact hsame
    · split
      · exact hsame
      · exact hsame
      · exact .of_nodes (hk.drifts_putIntoPipe _ data).nodes
      · exact hsame
      · exact hsame
      · split
        · rename_i hnode
          exact (sameTree_setFile hnode rfl rfl).trans (.of_nodes rfl)
        · exact hsame

theorem nodes_duplicate (source target : Fd) :
    (k.duplicate p source target).2.nodes = k.nodes := by
  unfold duplicate
  split
  · rfl
  · split
    · rfl
    · split
      · rfl
      · dsimp only
        split
        · exact nodes_release _
        · rfl

theorem nodes_duplicateFrom (source lowest : Fd) :
    (k.duplicateFrom p source lowest).2.nodes = k.nodes := by
  unfold duplicateFrom
  split
  · rfl
  · split
    · rfl
    · split <;> rfl

theorem nodes_close (fd : Fd) : (k.close p fd).2.nodes = k.nodes := by
  unfold close
  split
  · rfl
  · exact nodes_release _

theorem nodes_makePipe : (k.makePipe p).2.nodes = k.nodes := by
  unfold makePipe
  split
  · rfl
  · extract_lets next
    split <;> rfl

theorem nodes_changeDirectory (path : Path) : (k.changeDirectory p path).2.nodes = k.nodes := by
  unfold changeDirectory
  split
  · rfl
  · rfl
  · rfl
  · split <;> rfl

theorem nodes_wait (hk : k.Sound) {target : Pid} {options : WaitOptions}
    {answer : Except Errno WaitStatus} (h : k.wait p target options = .answer answer k') :
    k'.nodes = k.nodes := by
  obtain ⟨-, rfl⟩ | ⟨child, -, -, -, hcases⟩ := hk.wait_cases h
  · rfl
  · obtain ⟨_, -, -, rfl⟩ | ⟨_, -, -, -, rfl⟩ | ⟨-, -, rfl⟩ := hcases <;> rfl

theorem nodes_setGroup (hk : k.Sound) (target group : Pid) :
    (k.setGroup p target group).2.nodes = k.nodes := by
  generalize hset : k.setGroup p target group = outcome
  obtain ⟨answer, k'⟩ := outcome
  obtain ⟨q, -, -, -, -, rfl⟩ | ⟨-, rfl, -⟩ := hk.setGroup_cases hset <;> rfl

theorem nodes_setForeground (hk : k.Sound) (fd : Fd) (group : Pid) :
    (k.setForeground p fd group).kernel.nodes = k.nodes := by
  unfold setForeground
  split
  · rfl
  · split
    · exact (hk.drifts_signalGroup _ _).nodes
    · split <;> rfl

def RemovesDirectory {β : Type} : Call β → Prop
  | .removeDirectory _ => True
  | _ => False

/-- Only the removal of a directory may take a path away. -/
theorem Sound.sameTree_perform {β : Type} {call : Call β} {answer : β} (hk : k.Sound)
    (hp : p ∈ k.processes) (h : k.perform p call = .answer answer k')
    (hcall : ¬ RemovesDirectory call) : SameTree k k' := by
  have hkernel (htree : SameTree k (k.perform p call).kernel) : SameTree k k' := by
    rwa [h] at htree
  cases hmanner : manner call with
  | quiet => exact hkernel (.of_nodes (hk.drifts_quiet hp hmanner).nodes)
  | leaving => exact .of_nodes (by rw [hk.eq_of_leaving hp hmanner h])
  | files =>
    cases call with
    | write fd data => exact hkernel (sameTree_write hk fd data)
    | makeDirectory path permissions => exact hkernel (sameTree_makeDirectory path permissions)
    | removeDirectory path => exact absurd trivial hcall
    | unlink path => exact hkernel (sameTree_unlink path)
    | changePermissions fd permissions =>
      exact hkernel (sameTree_changePermissions fd permissions)
    | _ => cases hmanner
  | own =>
    cases call with
    | openFile path flags permissions => exact hkernel (sameTree_openPath path flags permissions)
    | close fd => exact hkernel (.of_nodes (nodes_close fd))
    | pipe => exact hkernel (.of_nodes nodes_makePipe)
    | duplicate source target => exact hkernel (.of_nodes (nodes_duplicate source target))
    | duplicateFrom source least => exact hkernel (.of_nodes (nodes_duplicateFrom source least))
    | changeDirectory path => exact hkernel (.of_nodes (nodes_changeDirectory path))
    | _ => cases hmanner
  | special =>
    cases call with
    | wait target options => exact .of_nodes (nodes_wait hk h)
    | setGroup target group => exact hkernel (.of_nodes (nodes_setGroup hk target group))
    | setForeground fd group => exact hkernel (.of_nodes (nodes_setForeground hk fd group))
    | _ => cases hmanner

end

end JobShell.Kernel
