import Relink.Proofs.Host.Temporary
import Relink.Proofs.Tree.Stops

/-!
# Writing as a whole

A write either leaves the tree as it was, or puts a file with the new content where the last name
of its path stands, and changes nothing else. The file takes the place of whatever was there, also
of a link, which is not followed. The path then leads to the file, unless it led to its own
directory through that link.
-/

namespace Relink

namespace Tree

variable {tree tree' : Tree} {base directory location goal : Location} {legs more : List Leg}

/-! ## What is looked up on a way -/

/-- The locations that are looked up on the way to the directory that holds the last name of a
path. -/
def stopsAbove (tree : Tree) (base : Location) (path : Path) : List Location :=
  tree.stops true linkLimit (if path.isAbsolute then [] else base) path.legs.dropLast

/-- On a way that goes on, a directory or a link lies wherever it looks. -/
theorem exists_of_mem_stopsBefore (goesOn : GoesOn (tree.descend true directory legs))
    (member : location ∈ tree.stopsBefore directory legs) :
    ∃ entry, tree.lookup location = some entry ∧ entry.isFile = false := by
  induction legs generalizing directory with
  | nil => cases member
  | cons leg legs ih =>
    cases leg with
    | stay => exact ih goesOn member
    | up => exact ih goesOn member
    | down name =>
      rw [stopsBefore] at member
      rw [descend] at goesOn
      split at member
      · cases member
      · rename_i fits
        rw [if_neg fits] at goesOn
        dsimp only at member goesOn
        cases found : tree.lookup (directory ++ [name]) with
        | none =>
          rw [found] at goesOn
          cases legs <;> cases goesOn
        | some entry =>
          rw [found] at member goesOn
          cases entry with
          | directory =>
            rcases List.mem_cons.1 member with rfl | later
            · exact ⟨_, found, rfl⟩
            · exact ih goesOn later
          | file content executable => cases legs <;> cases goesOn
          | link target =>
            obtain rfl := List.mem_singleton.1 member
            exact ⟨_, found, rfl⟩

/-- On the way to a directory, a directory or a link lies wherever it looks. -/
theorem exists_of_mem_stops {links : Nat}
    (found : tree.walk true links directory legs = .ok ⟨goal, some .directory⟩)
    (member : location ∈ tree.stops true links directory legs) :
    ∃ entry, tree.lookup location = some entry ∧ entry.isFile = false := by
  replace found := trail_of_walk found
  induction found with
  | arrived way =>
    unfold stops at member
    rw [way, List.append_nil] at member
    exact exists_of_mem_stopsBefore (way ▸ .arrived goal) member
  | linked way _ ih =>
    rw [stops, way] at member
    rcases List.mem_append.1 member with before | after
    · exact exists_of_mem_stopsBefore (way ▸ .linked ..) before
    · exact ih after

/-! ## Ways that a file blocks -/

variable {content : ByteArray} {executable : Bool}

/-- Where a way looked at a location up to the first link, a file that is put there stops it. -/
theorem descend_blocked (filled : more ≠ [])
    (blocks : tree'.lookup goal = some (.file content executable))
    (others : ∀ other, other ≠ goal -> tree'.lookup other = tree.lookup other)
    (member : goal ∈ tree.stopsBefore directory legs) :
    tree'.descend true directory (legs ++ more) = .blocked .notDirectory := by
  induction legs generalizing directory with
  | nil => cases member
  | cons leg legs ih =>
    have goesOn : (legs ++ more).isEmpty = false := by simp [filled]
    cases leg with
    | stay => exact ih member
    | up => exact ih member
    | down name =>
      rw [stopsBefore] at member
      rw [List.cons_append, descend]
      split at member
      · cases member
      · rename_i fits
        rw [if_neg fits]
        dsimp only at member ⊢
        by_cases here : goal = directory ++ [name]
        · rw [← here, blocks, goesOn]
          rfl
        · have later := (List.mem_cons.1 member).resolve_left here
          split at later
          · rename_i isDirectory
            rw [others _ (Ne.symm here), isDirectory]
            exact ih later
          · cases later

/-- Where a way looked at a location, a file that is put there stops it. -/
theorem walk_blocked {links : Nat} (filled : more ≠ [])
    (blocks : tree'.lookup goal = some (.file content executable))
    (others : ∀ other, other ≠ goal -> tree'.lookup other = tree.lookup other)
    (member : goal ∈ tree.stops true links directory legs) :
    tree'.walk true links directory (legs ++ more) = .error .notDirectory := by
  induction links generalizing directory legs with
  | zero =>
    rw [stops] at member
    have before : goal ∈ tree.stopsBefore directory legs := by
      cases way : tree.descend true directory legs <;> rw [way] at member <;>
        simpa using member
    rw [walk, descend_blocked filled blocks others before]
  | succ fewer ih =>
    by_cases before : goal ∈ tree.stopsBefore directory legs
    · rw [walk, descend_blocked filled blocks others before]
    · -- Up to the first link the way is the old one, so that the file lies behind the link.
      have same : tree'.descend true directory legs = tree.descend true directory legs :=
        descend_congr true fun stop looks => others stop fun here => before (here ▸ looks)
      rw [stops] at member
      have after := (List.mem_append.1 member).resolve_left before
      rw [walk, descend_append true directory legs filled, same]
      cases way : tree.descend true directory legs with
      | arrived place => rw [way] at after; cases after
      | blocked cause => rw [way] at after; cases after
      | linked reached target rest =>
        rw [way] at after
        dsimp only at after ⊢
        rw [← List.append_assoc]
        exact ih after

/-! ## Reading what was put -/

/-- A path that led into a directory leads to a file that is put under its last name, unless it
went through what the file replaced. -/
theorem LeadsInto.read {path : Path} {name : String}
    (leads : tree.LeadsInto base path directory name)
    (put : tree'.lookup (directory ++ [name]) = some (.file content executable))
    (others : ∀ other, other ≠ directory ++ [name] -> tree'.lookup other = tree.lookup other) :
    tree'.read base path =
      if directory ++ [name] ∈ tree.stopsAbove base path then .error .notDirectory
      else .ok content := by
  obtain ⟨filled, short, fits, front, legs, arrives⟩ := leads
  have last : [Leg.down name] ≠ [] := by simp
  have above : path.legs.dropLast = front := by rw [legs, List.dropLast_concat]
  have resolves : tree'.resolve base true path =
      tree'.walk true linkLimit (if path.isAbsolute then [] else base)
        (front ++ [.down name]) := by
    rw [Tree.resolve, filled, if_neg (by decide), if_neg (by omega), legs]
  rw [Tree.read, status, resolves, stopsAbove, above]
  by_cases looks : directory ++ [name] ∈
      tree.stops true linkLimit (if path.isAbsolute then [] else base) front
  · rw [if_pos looks, walk_blocked last put others looks]
  · have same := walk_of_stops fun stop member => others stop fun here => looks (here ▸ member)
    obtain ⟨fewer, -, onward⟩ := exists_walk_append true last (same.trans arrives)
    rw [if_neg looks, onward, walk_down fewer (.inr (by simp [put])), if_neg (by omega), put]

/-- What is looked up on the way into a directory is no file. -/
theorem LeadsInto.exists_of_mem_stopsAbove {path : Path} {name : String}
    (leads : tree.LeadsInto base path directory name)
    (member : location ∈ tree.stopsAbove base path) :
    ∃ entry, tree.lookup location = some entry ∧ entry.isFile = false := by
  obtain ⟨-, -, -, front, legs, arrives⟩ := leads
  rw [stopsAbove, legs, List.dropLast_concat] at member
  exact exists_of_mem_stops arrives member

/-! ## A file where nothing was -/

theorem isGroundOf_set (nothing : tree.lookup location = none) (entry : Entry) :
    tree.IsGroundOf (tree.set location entry) := by
  intro other there found _
  have filled : location ≠ [] := by
    rintro rfl
    cases nothing
  rw [lookup_set _ _ filled, if_neg, found]
  rintro rfl
  rw [nothing] at found
  cases found

theorem isGroundOf_of_set (filled : location ≠ []) :
    (tree.set location (.file content executable)).IsGroundOf tree := by
  intro other there found solid
  rw [lookup_set _ _ filled] at found
  split at found
  · cases found
    cases solid
  · exact found

end Tree

namespace Host

variable {host : Host} {target : Path} {content : ByteArray}

/-- Whether no entry lies where the next temporary file for a target is to be made. -/
def IsVacant (host : Host) (target : Path) : Prop :=
  ∀ place entry, host.tree.resolve host.directory false
    (temporaryPath target host.processId host.ticket) ≠ .ok ⟨place, some entry⟩

/-- What a write leaves: the tree as it was, or the tree with a file in a place of its own. -/
inductive Writes (host : Host) (target : Path) (content : ByteArray) :
    Except Cause Unit -> Tree -> Prop
  | refused (cause : Cause) : Writes host target content (.error cause) host.tree
  | wrote {directory : Location} {name : String} {tree : Tree}
      (leads : host.tree.LeadsInto host.directory target directory name)
      (ordinary : host.tree.lookup (directory ++ [name]) ≠ some .directory)
      (fits : Name.size (temporaryName name host.processId host.ticket) ≤ nameLimit)
      (lies : tree.lookup (directory ++ [name]) = some (.file content false))
      (others : ∀ other, other ≠ directory ++ [name] ->
        tree.lookup other = host.tree.lookup other) :
      Writes host target content (.ok ()) tree

/-- Where the temporary file was made and then given its new name, the tree has changed in the
place of that name only. -/
theorem writes_rename {directory : Location} {hidden : String} {front : List Leg} {renamed : Tree}
    {move : List Change} {temporary : Path} (legs : temporary.legs = front ++ [.down hidden])
    (isTemporary : temporaryName (target.fileName?.getD "file") host.processId host.ticket = hidden)
    (leads : host.tree.LeadsInto host.directory temporary directory hidden)
    (nothing : host.tree.lookup (directory ++ [hidden]) = none)
    (renames : (host.tree.set (directory ++ [hidden]) (.file content false)).rename host.directory
      temporary target = .ok (renamed, move)) :
    host.Writes target content (.ok ()) renamed := by
  have lookups := @Tree.lookup_set host.tree (directory ++ [hidden]) (.file content false)
  have lies := (lookups (directory ++ [hidden]) (by simp)).trans (if_pos rfl)
  have leads' := leads.of_ground (Tree.isGroundOf_set nothing (.file content false))
  obtain ⟨directory', outer, last, leads'', into, named, moved⟩ :=
    Tree.rename_inversion legs
      (fun directory' other => by
        obtain ⟨rfl, -⟩ := leads'.unique other
        exact lies) renames
  obtain ⟨rfl, -⟩ := leads'.unique leads''
  rw [named.fileName?, Option.getD_some] at isTemporary
  have apart : directory ++ [hidden] ≠ outer ++ [last] := by
    intro same
    obtain rfl : hidden = last := (List.append_singleton_inj.1 same).2
    exact temporaryName_ne _ _ _ isTemporary
  obtain ⟨ordinary, rfl⟩ := Tree.moveEntry_file apart moved
  have into' := into.of_ground (Tree.isGroundOf_of_set (by simp))
  refine .wrote into' ?_ (isTemporary ▸ leads.fits) ?_ ?_
  · rwa [lookups _ (by simp), if_neg apart.symm] at ordinary
  · rw [Tree.lookup_set _ _ (by simp), if_pos rfl]
  · intro place elsewhere
    rw [Tree.lookup_set _ _ (by simp), if_neg elsewhere, Tree.lookup_erase _ (by simp)]
    split
    · rename_i here
      rw [here, nothing]
    · rename_i here
      rw [lookups place (by simp), if_neg here]

/-- Nothing lies where the way to a vacant temporary file leads. -/
theorem IsVacant.lookup {directory : Location} {hidden : String} (vacant : host.IsVacant target)
    (leads : host.tree.LeadsInto host.directory
      (temporaryPath target host.processId host.ticket) directory hidden) :
    host.tree.lookup (directory ++ [hidden]) = none := by
  rw [← Option.not_isSome_iff_eq_none, Option.isSome_iff_exists]
  rintro ⟨entry, found⟩
  exact vacant _ entry ((leads.resolve (.inl rfl)).trans (by rw [found]))

/-- A write does one or the other. Its temporary file is made where nothing was, so that what was
there is there again when the file has gone, by its new name or by its removal. -/
theorem writes_writeWhole (vacant : host.IsVacant target) :
    host.Writes target content (host.writeWhole target content).1
      (host.writeWhole target content).2.tree := by
  obtain ⟨front, legs⟩ := exists_legs_temporaryPath target host.processId host.ticket
  generalize isTemporary :
    temporaryName (target.fileName?.getD "file") host.processId host.ticket = hidden at legs
  unfold writeWhole writeThrough
  dsimp only
  split
  · exact .refused _
  · rename_i created location creation makes
    obtain ⟨directory, leads, rfl, rfl⟩ :=
      Tree.createFile_inversion legs (fun _ leads => vacant.lookup leads) makes
    have nothing := vacant.lookup leads
    rw [Tree.append_created false content (by simp)]
    split
    · rename_i renamed move renames
      exact writes_rename legs isTemporary leads nothing renames
    · rename_i cause refuses
      have leads' := leads.of_ground (Tree.isGroundOf_set nothing (.file content false))
      obtain ⟨changes, removes⟩ :=
        leads'.removeFile ((Tree.lookup_set _ _ (by simp)).trans (if_pos rfl))
      rw [removes]
      dsimp only [changed]
      rw [Tree.erase_set, Tree.erase_of_lookup nothing]
      exact .refused cause

/-- Where writing to the temporary file fails, the call fails, and the file stays with the bytes
that it took. Nothing else has changed. -/
theorem writeThrough_fault {fault : WriteFault} {created : Tree} {location : Location}
    {creation : List Change} (vacant : host.IsVacant target)
    (makes : host.tree.createFile host.directory
      (temporaryPath target host.processId host.ticket) = .ok (created, location, creation)) :
    host.tree.lookup location = none ∧
    (host.writeThrough (some fault) target content).1 = .error fault.cause ∧
    (host.writeThrough (some fault) target content).2.tree =
      host.tree.set location (.file (content.extract 0 fault.taken) false) := by
  obtain ⟨front, legs⟩ := exists_legs_temporaryPath target host.processId host.ticket
  obtain ⟨directory, leads, rfl, rfl⟩ :=
    Tree.createFile_inversion legs (fun _ leads => vacant.lookup leads) makes
  unfold writeThrough
  dsimp only
  rw [makes]
  exact ⟨vacant.lookup leads, rfl,
    Tree.append_created false (content.extract 0 fault.taken) (by simp)⟩

/-- A write leaves the working directory as it is. -/
theorem directory_writeWhole (path : Path) :
    (host.writeWhole path content).2.directory = host.directory := by
  unfold writeWhole writeThrough
  dsimp only
  split
  · rfl
  · split
    · rfl
    · split <;> rfl

/-- A write is all or nothing. Where it fails, the tree is the one before. Where it succeeds, the
path leads into a directory by a name that leaves room for the temporary one and under which no
directory lay, a file with the new content lies there in the end, and every other entry is the one
before, also what a link there led to. The file is read by the path, except where the path led to
that very directory through the link that the file has replaced. -/
theorem writeWhole_allOrNothing (vacant : host.IsVacant target) :
    (∀ cause, (host.writeWhole target content).1 = .error cause ->
      (host.writeWhole target content).2.tree = host.tree) ∧
    ((host.writeWhole target content).1 = .ok () -> ∃ directory name,
      host.tree.LeadsInto host.directory target directory name ∧
      host.tree.lookup (directory ++ [name]) ≠ some .directory ∧
      Name.size (temporaryName name host.processId host.ticket) ≤ nameLimit ∧
      (host.writeWhole target content).2.tree.lookup (directory ++ [name]) =
        some (.file content false) ∧
      (∀ other, other ≠ directory ++ [name] ->
        (host.writeWhole target content).2.tree.lookup other = host.tree.lookup other) ∧
      ((∃ link, host.tree.lookup (directory ++ [name]) = some (.link link) ∧
          directory ++ [name] ∈ host.tree.stopsAbove host.directory target ∧
          (host.writeWhole target content).2.readBytes target = .error .notDirectory) ∨
        directory ++ [name] ∉ host.tree.stopsAbove host.directory target ∧
          (host.writeWhole target content).2.readBytes target = .ok content)) := by
  have writes := @writes_writeWhole host target content vacant
  rw [readBytes, directory_writeWhole]
  generalize (host.writeWhole target content).1 = result at writes ⊢
  generalize (host.writeWhole target content).2.tree = after at writes ⊢
  cases writes with
  | refused cause => exact ⟨fun _ _ => rfl, fun impossible => by cases impossible⟩
  | @wrote directory name _ leads ordinary fits lies others =>
    refine ⟨fun _ impossible => (by cases impossible), fun _ =>
      ⟨directory, name, leads, ordinary, fits, lies, others, ?_⟩⟩
    have reads := leads.read lies others
    -- If the way of the path goes through the entry that is replaced, that was a link.
    by_cases looks : directory ++ [name] ∈ host.tree.stopsAbove host.directory target
    · obtain ⟨entry, found, solid⟩ := leads.exists_of_mem_stopsAbove looks
      rw [if_pos looks] at reads
      cases entry with
      | directory => exact absurd found ordinary
      | file content executable => cases solid
      | link link => exact .inl ⟨link, found, looks, reads⟩
    · rw [if_neg looks] at reads
      exact .inr ⟨looks, reads⟩

/-- A directory with a file and a link to it. -/
def linkedFile : Host where
  tree := ⟨[(["d"], .directory), (["d", "x"], .link ⟨"y"⟩),
    (["d", "y"], .file "old".toByteArray false)]⟩
  directory := []

/-- A write to the link: it is replaced, and the file that it led to is not. -/
theorem writeWhole_allOrNothing_linkedFile :
    linkedFile.IsVacant ⟨"d/x"⟩ ∧
    (linkedFile.writeWhole ⟨"d/x"⟩ "new".toByteArray).1 = .ok () ∧
    ∃ directory name,
      linkedFile.tree.LeadsInto linkedFile.directory ⟨"d/x"⟩ directory name ∧
      (linkedFile.writeWhole ⟨"d/x"⟩ "new".toByteArray).2.tree.lookup (directory ++ [name]) =
        some (.file "new".toByteArray false) := by
  have nothing : linkedFile.tree.resolve linkedFile.directory false
      (temporaryPath ⟨"d/x"⟩ linkedFile.processId linkedFile.ticket) =
        .ok ⟨["d", ".x.tmp.1.0"], none⟩ := by decide
  have vacant : linkedFile.IsVacant ⟨"d/x"⟩ := by
    intro place entry found
    rw [nothing] at found
    cases found
  have succeeds : (linkedFile.writeWhole ⟨"d/x"⟩ "new".toByteArray).1 = .ok () := by
    decide
  obtain ⟨directory, name, leads, -, -, lies, -⟩ :=
    (@writeWhole_allOrNothing linkedFile ⟨"d/x"⟩ "new".toByteArray vacant).2 succeeds
  exact ⟨vacant, succeeds, directory, name, leads, lies⟩

/-- A directory with a link to itself. -/
def selfLinked : Host where
  tree := ⟨[(["l"], .link ⟨"."⟩)]⟩
  directory := []

/-- A path that leads to its own link through that link names nothing once the link is replaced,
although the write has succeeded. -/
theorem writeWhole_replacesWay :
    selfLinked.IsVacant ⟨"l/l"⟩ ∧
    (selfLinked.writeWhole ⟨"l/l"⟩ "x".toByteArray).1 = .ok () ∧
    (selfLinked.writeWhole ⟨"l/l"⟩ "x".toByteArray).2.readBytes ⟨"l/l"⟩ =
      .error .notDirectory := by
  have nothing : selfLinked.tree.resolve selfLinked.directory false
      (temporaryPath ⟨"l/l"⟩ selfLinked.processId selfLinked.ticket) =
        .ok ⟨[".l.tmp.1.0"], none⟩ := by decide
  refine ⟨fun place entry found => ?_, by decide, by decide⟩
  rw [nothing] at found
  cases found

end Host
end Relink
