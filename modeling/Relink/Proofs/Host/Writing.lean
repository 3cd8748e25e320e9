import Relink.Host.Write
import Relink.Proofs.Tree.Rewriting

/-!
# Replacing a file as a whole

Whether an entry of a directory can be replaced is decided by the name of its temporary file and
by what bears that name. If it cannot be, the tree stays as it is. Otherwise the entry is a file
with the new content in the end, the temporary name is free, and nothing else has changed.
-/

namespace Relink

/-! ## Temporary names -/

/-- A number is written in digits. -/
theorem not_mem_repr {character : Char} (other : character.isDigit = false) (number : Nat) :
    character ∉ (Nat.repr number).toList := by
  intro member
  rw [Nat.toList_repr] at member
  rw [Nat.isDigit_of_mem_toDigits (by decide) (by decide) member] at other
  cases other

/-- The digits of a number are a plain name. -/
theorem isPlain_repr (number : Nat) : Name.IsPlain (Nat.repr number) :=
  not_mem_repr (by decide) number

/-- A number has as many bytes as it has digits. -/
theorem size_repr (number : Nat) :
    Name.size (Nat.repr number) = (Nat.toDigits 10 number).length := by
  have single {characters : List Char}
      (digits : ∀ character ∈ characters, character.isDigit = true) :
      (characters.flatMap String.utf8EncodeChar).length = characters.length := by
    induction characters with
    | nil => rfl
    | cons character characters ih =>
      obtain ⟨digit, digits⟩ := List.forall_mem_cons.1 digits
      have upper := (Char.isDigit_iff_toNat.1 digit).2
      have size : character.utf8Size = 1 :=
        Char.utf8Size_eq_one_iff.2 (le_trans upper (by decide : (57 : Nat) ≤ 127))
      rw [List.flatMap_cons, List.length_append, ih digits, String.length_utf8EncodeChar, size,
        List.length_cons, Nat.add_comm]
  rw [Name.size, (isPlain_repr number).bytes, Nat.toList_repr]
  exact single fun _ => Nat.isDigit_of_mem_toDigits (by decide) (by decide)

/-- A greater number takes as many bytes or more. -/
theorem size_repr_mono {number later : Nat} (le : number ≤ later) :
    Name.size (Nat.repr number) ≤ Name.size (Nat.repr later) := by
  have short {count : Nat} (filled : 0 < count) :
      (Nat.toDigits 10 number).length ≤ count ↔ number < 10 ^ count :=
    Nat.length_toDigits_le_iff (by decide) filled
  have long := (@Nat.length_toDigits_le_iff 10 later _ (by decide) Nat.length_toDigits_pos).1 le_rfl
  rw [size_repr, size_repr, short Nat.length_toDigits_pos]
  exact le.trans_lt long

/-- A temporary name is made from a Unicode name. -/
theorem isUnicode_temporaryStem (name : String) :
    Name.isUnicode (Host.temporaryStem name) = true := by
  unfold Host.temporaryStem
  split
  · assumption
  · decide

/-- What stands between the points of a temporary name. -/
theorem temporaryName_eq (name : String) (processId ticket : Nat) :
    Host.temporaryName name processId ticket =
      "" ++ "." ++ Host.temporaryStem name ++ "." ++ "tmp" ++ "." ++ Nat.repr processId ++ "." ++
        Nat.repr ticket := by
  simp [Host.temporaryName, ← String.toList_inj]

/-- Temporary names are Unicode, whatever the file is called. -/
theorem isUnicode_temporaryName (name : String) (processId ticket : Nat) :
    Name.isUnicode (Host.temporaryName name processId ticket) = true := by
  simp only [temporaryName_eq, Name.isUnicode_append_point, isUnicode_temporaryStem,
    (isPlain_repr _).isUnicode]
  decide

/-- Temporary names are hidden. -/
theorem isHiddenName_temporaryName (name : String) (processId ticket : Nat) :
    isHiddenName (Host.temporaryName name processId ticket) = true := by
  rw [isHiddenName, isUnicode_temporaryName, Host.temporaryName]
  simp

/-- A temporary name has no slash. -/
theorem noSlash_temporaryName {name : String} (noSlash : '/' ∉ name.toList)
    (processId ticket : Nat) : '/' ∉ (Host.temporaryName name processId ticket).toList := by
  have number := @not_mem_repr '/' (by decide)
  have stem : '/' ∉ (Host.temporaryStem name).toList := by
    unfold Host.temporaryStem
    split
    · exact noSlash
    · decide
  simp only [Host.temporaryName, String.toList_append, List.mem_append, not_or]
  exact ⟨⟨⟨⟨⟨by decide, stem⟩, by decide⟩, number _⟩, by decide⟩, number _⟩

/-- A temporary name is neither `.` nor `..`. -/
theorem temporaryName_long (name : String) (processId ticket : Nat) :
    2 < (Host.temporaryName name processId ticket).toList.length := by
  simp [Host.temporaryName]
  omega

/-- The temporary file for an entry has a name that an entry can have. -/
theorem isName_temporaryName {name : String} (isName : IsName name) (processId ticket : Nat) :
    IsName (Host.temporaryName name processId ticket) := by
  have long := temporaryName_long name processId ticket
  refine ⟨?_, ?_, ?_, noSlash_temporaryName isName.noSlash processId ticket⟩
  · intro same
    rw [same] at long
    exact absurd long (by decide)
  · intro same
    rw [same] at long
    exact absurd long (by decide)
  · intro same
    rw [same] at long
    exact absurd long (by decide)

/-- The temporary name of a file is another name. -/
theorem temporaryName_ne (name : String) (processId ticket : Nat) :
    Host.temporaryName name processId ticket ≠ name := by
  intro same
  have isUnicode := isUnicode_temporaryName name processId ticket
  rw [same] at isUnicode
  have length := congrArg (fun text => text.toList.length) same
  simp [Host.temporaryName, Host.temporaryStem, isUnicode] at length
  omega

/-- The ticket of a temporary name is what follows its last point. -/
theorem ticket_of_temporaryName {name name' : String} {processId processId' ticket ticket' : Nat}
    (same : Host.temporaryName name processId ticket =
      Host.temporaryName name' processId' ticket') : ticket = ticket' := by
  have last (name : String) (processId ticket : Nat) :
      (Text.splitAt '.' (Host.temporaryName name processId ticket).toList).getLast? =
        some (Nat.repr ticket).toList := by
    have written : (Host.temporaryName name processId ticket).toList =
        ("." ++ Host.temporaryStem name ++ ".tmp." ++ Nat.repr processId).toList ++
          '.' :: (Nat.repr ticket).toList := by
      rw [Host.temporaryName, String.toList_append, String.toList_append, List.append_assoc]
      rfl
    rw [written, Text.splitAt_append, Text.splitAt_of_not_mem (not_mem_repr (by decide) ticket),
      List.getLast?_concat]
  have digits := last name processId ticket
  rw [same, last name' processId' ticket'] at digits
  have digits' := Option.some.inj digits
  rw [Nat.toList_repr, Nat.toList_repr] at digits'
  rw [← @Nat.ofDigitChars_toDigits 10 ticket (by decide) (by decide), ← digits',
    Nat.ofDigitChars_toDigits (by decide) (by decide)]

/-- No two tickets of a process give the same name. -/
theorem temporaryName_inj {name : String} {processId ticket ticket' : Nat} :
    Host.temporaryName name processId ticket = Host.temporaryName name processId ticket' ↔
      ticket = ticket' := by
  constructor
  · exact ticket_of_temporaryName
  · rintro rfl
    rfl

/-- The path of the temporary file for an entry. -/
theorem temporaryPath_path {names : List String} {name : String}
    (areNames : AreNames (names ++ [name])) (processId ticket : Nat) :
    Host.temporaryPath (Location.path (names ++ [name])) processId ticket =
      Location.path (names ++ [Host.temporaryName name processId ticket]) := by
  rw [Host.temporaryPath, Location.parent?_path areNames, Location.fileName?_path areNames]
  exact Location.join_path areNames.left (isName_temporaryName (areNames name (by simp)) _ _)

/-- Whether a process takes a location for a temporary file, once it has taken `ticket` names. -/
def IsTemporary (processId ticket : Nat) (location : Location) : Prop :=
  ∃ outer name later, ticket ≤ later ∧
    location = outer ++ [Host.temporaryName name processId later]

/-- What bears a temporary name is hidden. -/
theorem IsTemporary.isHidden {processId ticket : Nat} {location : Location}
    (temporary : IsTemporary processId ticket location) : Tree.IsHidden location := by
  obtain ⟨outer, name, later, -, shape⟩ := temporary
  exact ⟨outer, _, shape, isHiddenName_temporaryName name processId later⟩

/-- A name for a later ticket is one from any ticket before. -/
theorem IsTemporary.mono {processId ticket ticket' : Nat} {location : Location}
    (temporary : IsTemporary processId ticket' location) (earlier : ticket ≤ ticket') :
    IsTemporary processId ticket location := by
  obtain ⟨outer, name, later, bound, shape⟩ := temporary
  exact ⟨outer, name, later, earlier.trans bound, shape⟩

/-- A temporary name is longer than the Unicode name that it is made from. -/
theorem temporaryName_longer {name : String} (isUnicode : Name.isUnicode name = true)
    (processId ticket : Nat) :
    Name.size name ≤ Name.size (Host.temporaryName name processId ticket) := by
  simp only [temporaryName_eq, Name.size_append_point, Host.temporaryStem, if_pos isUnicode]
  omega

/-- Temporary names do not get shorter. -/
theorem temporaryName_mono (name : String) (processId : Nat) {ticket later : Nat}
    (le : ticket ≤ later) :
    Name.size (Host.temporaryName name processId ticket) ≤
      Name.size (Host.temporaryName name processId later) := by
  have digits := size_repr_mono le
  simp only [temporaryName_eq, Name.size_append_point]
  omega

/-! ## The calls -/

namespace Tree

variable {tree : Tree} {base directory : Location} {outer : List String} {name : String}

/-- Whether the file at a location may be run. -/
def isExecutableAt (tree : Tree) (location : Location) : Bool :=
  match tree.lookup location with
  | some (.file _ executable) => executable
  | _ => false

/-- Why no file of a name can be opened for writing in a directory, if none can be. The path of
the directory is `outer`. -/
def refusal? (tree : Tree) (directory : Location) (outer : List String) (name : String) :
    Option Cause :=
  if IsTooLong outer name then some .nameTooLong
  else
    match tree.lookup (directory ++ [name]) with
    | none => if tree.lookup directory = some .directory then none else some .notFound
    | some .directory => some .isDirectory
    | some (.file _ _) => none
    | some (.link _) => some .tooManyLinks

/-- Where a file can be opened for writing, nothing or a file lies. -/
theorem lookup_of_refusal (open_ : tree.refusal? directory outer name = none) :
    ¬IsTooLong outer name ∧ (tree.lookup (directory ++ [name]) = none ∨ ∃ content executable,
      tree.lookup (directory ++ [name]) = some (.file content executable)) := by
  unfold refusal? at open_
  split at open_
  · cases open_
  · rename_i fits
    refine ⟨fits, ?_⟩
    split at open_
    · rename_i none_
      exact .inl none_
    · cases open_
    · rename_i content executable found
      exact .inr ⟨content, executable, found⟩
    · cases open_

/-- Where neither a directory nor a link is in the way, a file cannot be opened for writing only
because its name is too long. -/
theorem tooLong_of_refusal {cause : Cause} (holder : tree.lookup directory = some .directory)
    (ordinary : tree.lookup (directory ++ [name]) ≠ some .directory)
    (solid : ∀ target, tree.lookup (directory ++ [name]) ≠ some (.link target))
    (refused : tree.refusal? directory outer name = some cause) :
    cause = .nameTooLong ∧ IsTooLong outer name := by
  unfold refusal? at refused
  rw [if_pos holder] at refused
  split at refused
  · rename_i tooLong
    exact ⟨(Option.some.inj refused).symm, tooLong⟩
  · split at refused
    · cases refused
    · rename_i found
      exact absurd found ordinary
    · cases refused
    · rename_i target found
      exact absurd found (solid target)

/-- Whether a file can be opened for writing is the same after files were written anew. -/
theorem Rewrites.refusal?_eq {tree' : Tree} {isTemporary : Location -> Prop}
    {isNew : Location -> ByteArray -> Prop} (rewrites : Rewrites isTemporary isNew tree tree')
    (proper : tree.IsProper) (directory : Location) (outer : List String) (name : String) :
    tree'.refusal? directory outer name = tree.refusal? directory outer name := by
  have holder : tree'.lookup directory = some .directory ↔
      tree.lookup directory = some .directory := by
    have turns := rewrites.turns directory
    generalize tree.lookup directory = entry at turns ⊢
    generalize tree'.lookup directory = entry' at turns ⊢
    cases turns <;> simp
  unfold refusal?
  simp only [holder]
  split
  · rfl
  · have turns := rewrites.turns (directory ++ [name])
    generalize found : tree.lookup (directory ++ [name]) = entry at turns ⊢
    generalize tree'.lookup (directory ++ [name]) = entry' at turns ⊢
    cases turns with
    | same => rfl
    | written _ => rfl
    | gone _ => exact if_pos (proper.lookup_outer (by simp) found)

/-- A file is not made where the directory refuses its name. -/
theorem createFile_refused {cause : Cause} (areNames : AreNames (outer ++ [name]))
    (reached : tree.status base (Location.path outer) = .ok (directory, .directory))
    (solid : ∀ target, tree.lookup (directory ++ [name]) ≠ some (.link target))
    (refused : tree.refusal? directory outer name = some cause) :
    tree.createFile base (Location.path (outer ++ [name])) = .error cause := by
  unfold createFile
  unfold refusal? at refused
  rw [resolve_entry areNames reached (.inr solid)]
  split at refused
  · rename_i tooLong
    rw [if_pos tooLong, Option.some.inj refused]
  · rename_i fits
    rw [if_neg fits]
    cases found : tree.lookup (directory ++ [name]) with
    | none =>
      rw [found] at refused
      dsimp only at refused ⊢
      rw [List.dropLast_concat]
      split at refused
      · cases refused
      · rename_i missing
        rw [if_neg missing, Option.some.inj refused]
    | some entry =>
      rw [found] at refused
      cases entry with
      | directory =>
        obtain rfl := Option.some.inj refused
        rfl
      | file content executable => cases refused
      | link target => exact absurd found (solid target)

/-- Where the directory takes its name, an empty file is made. -/
theorem createFile_made (areNames : AreNames (outer ++ [name]))
    (reached : tree.status base (Location.path outer) = .ok (directory, .directory))
    (open_ : tree.refusal? directory outer name = none) :
    ∃ changes, tree.createFile base (Location.path (outer ++ [name])) =
      .ok (tree.set (directory ++ [name])
        (.file ByteArray.empty (tree.isExecutableAt (directory ++ [name]))),
          directory ++ [name], changes) := by
  obtain ⟨fits, was⟩ := lookup_of_refusal open_
  have solid : ∀ target, tree.lookup (directory ++ [name]) ≠ some (.link target) := by
    intro target link
    rcases was with none_ | ⟨content, executable, found⟩
    · rw [none_] at link
      cases link
    · rw [found] at link
      cases link
  unfold createFile isExecutableAt
  rw [resolve_entry areNames reached (.inr solid), if_neg fits]
  rcases was with none_ | ⟨content, executable, found⟩
  · rw [refusal?, if_neg fits, none_] at open_
    rw [none_]
    dsimp only at open_ ⊢
    rw [List.dropLast_concat]
    split at open_
    · rename_i there
      exact ⟨_, if_pos there⟩
    · cases open_
  · rw [found]
    exact ⟨_, rfl⟩

/-- What is appended to an empty file is its content. -/
theorem append_created {location : Location} (executable : Bool) (bytes : ByteArray)
    (proper : location ≠ []) :
    ((tree.set location (.file ByteArray.empty executable)).append location bytes).1 =
      tree.set location (.file bytes executable) := by
  have found := @lookup_set tree location (.file ByteArray.empty executable) location proper
  rw [append, found, if_pos rfl]
  dsimp only
  by_cases empty : bytes.isEmpty = true
  · have same : bytes = ByteArray.empty := by
      simpa [ByteArray.isEmpty] using empty
    rw [if_pos empty, same]
  · rw [if_neg empty]
    dsimp only
    rw [set_set, ByteArray.empty_append]

/-- A file that is put where nothing or a file was leaves every way in place. -/
theorem keeps_set {location : Location} {bytes : ByteArray} {executable : Bool}
    (proper : location ≠ [])
    (was : tree.lookup location = none ∨ ∃ content executable,
      tree.lookup location = some (.file content executable)) :
    tree.Keeps (tree.set location (.file bytes executable)) := by
  constructor
  · intro other entry found solid
    rw [lookup_set _ _ proper, if_neg, found]
    rintro rfl
    rcases was with none_ | ⟨content, executable, file⟩
    · rw [none_] at found
      cases found
    · rw [file] at found
      cases found
      cases solid
  · intro other entry found isFile
    rw [lookup_set _ _ proper]
    split
    · exact .inr ⟨_, rfl, rfl⟩
    · exact .inr ⟨entry, found, isFile⟩

/-- A file takes the place of another entry of its directory. -/
theorem rename_entry {hidden : String} {bytes : ByteArray} {executable : Bool}
    (areNames : AreNames (outer ++ [name])) (areHidden : AreNames (outer ++ [hidden]))
    (reached : tree.status base (Location.path outer) = .ok (directory, .directory))
    (apart : hidden ≠ name) (fits : ¬IsTooLong outer hidden) (fits' : ¬IsTooLong outer name)
    (found : tree.lookup (directory ++ [hidden]) = some (.file bytes executable))
    (there : tree.lookup (directory ++ [name]) ≠ some .directory) :
    ∃ changes, tree.rename base (Location.path (outer ++ [hidden]))
        (Location.path (outer ++ [name])) =
      .ok ((tree.erase (directory ++ [hidden])).set (directory ++ [name])
        (.file bytes executable), changes) := by
  have apart' : directory ++ [hidden] ≠ directory ++ [name] := by
    simpa using apart
  have beside (first second : String) (apart : first ≠ second) :
      isBelow (directory ++ [first]) (directory ++ [second]) = false := by
    rw [isBelow, Bool.and_eq_false_iff, Bool.eq_false_iff, ne_eq, List.isPrefixOf_iff_prefix]
    exact .inl fun inside => apart (by simpa using inside)
  unfold rename
  rw [holder_entry areHidden reached fits, holder_entry areNames reached fits',
    resolve_entry areHidden reached (.inl rfl), if_neg fits, found]
  dsimp only
  rw [if_neg fun long => fits' (.inr long), if_neg (by simp)]
  unfold moveEntry
  rw [beside hidden name apart, beside name hidden (Ne.symm apart), if_neg (by decide),
    if_neg (by decide), if_neg apart']
  dsimp only [Entry.isDirectory]
  split
  · rename_i isDirectory _
    exact absurd isDirectory there
  · rename_i impossible
    cases impossible
  · rename_i impossible
    cases impossible
  · rename_i impossible
    cases impossible
  · exact ⟨_, rfl⟩

end Tree

/-! ## The whole of it -/

namespace Host

variable {host : Host} {directory : Location} {outer : List String} {name : String}
  {bytes : ByteArray}

/-- Where the temporary file for an entry lies. -/
def temporaryAt (host : Host) (directory : Location) (name : String) : Location :=
  directory ++ [temporaryName name host.processId host.ticket]

/-- Why an entry of a directory cannot be replaced, if it cannot be. -/
def refusal? (host : Host) (directory : Location) (outer : List String) (name : String) :
    Option Cause :=
  host.tree.refusal? directory outer (temporaryName name host.processId host.ticket)

/-- The tree after an entry of a directory was replaced. A file that bore the temporary name gave
the new one its permission. -/
def replaced (host : Host) (directory : Location) (name : String) (content : ByteArray) : Tree :=
  (host.tree.erase (host.temporaryAt directory name)).set (directory ++ [name])
    (.file content (host.tree.isExecutableAt (host.temporaryAt directory name)))

/-- What a replacement leaves at a location. -/
theorem lookup_replaced (content : ByteArray) (location : Location) :
    (host.replaced directory name content).lookup location =
      if location = directory ++ [name] then
        some (.file content (host.tree.isExecutableAt (host.temporaryAt directory name)))
      else if location = host.temporaryAt directory name then none
      else host.tree.lookup location := by
  rw [replaced, Tree.lookup_set _ _ (by simp), Tree.lookup_erase _ (by simp [temporaryAt])]

/-- Once an entry was replaced, nothing bears the temporary name. -/
theorem lookup_temporaryAt_replaced (content : ByteArray) :
    (host.replaced directory name content).lookup (host.temporaryAt directory name) = none := by
  rw [lookup_replaced, if_neg, if_pos rfl]
  simpa [temporaryAt] using temporaryName_ne name host.processId host.ticket

/-- A write takes one name, whatever comes of it. -/
theorem ticket_writeWhole (path : Path) :
    (host.writeWhole path bytes).2.ticket = host.ticket + 1 := by
  unfold writeWhole writeThrough
  dsimp only
  split
  · rfl
  · split
    · rfl
    · split <;> rfl

/-- An entry that cannot be replaced leaves the tree as it is. -/
theorem writeWhole_refused {cause : Cause} (areNames : AreNames (outer ++ [name]))
    (reached : host.tree.status host.directory (Location.path outer) = .ok (directory, .directory))
    (solid : ∀ target, host.tree.lookup (host.temporaryAt directory name) ≠ some (.link target))
    (refused : host.refusal? directory outer name = some cause) :
    host.writeWhole (Location.path (outer ++ [name])) bytes =
      (.error cause, { host with ticket := host.ticket + 1 }) := by
  have isHidden := isName_temporaryName (areNames name (by simp)) host.processId host.ticket
  have blocked := Tree.createFile_refused (areNames.left.append (.singleton isHidden)) reached
    solid refused
  unfold writeWhole writeThrough
  rw [temporaryPath_path areNames]
  dsimp only
  rw [blocked]

/-- An entry that can be replaced is a file with the new content in the end. -/
theorem writeWhole_replaces (areNames : AreNames (outer ++ [name]))
    (isUnicode : Name.isUnicode name = true)
    (reached : host.tree.status host.directory (Location.path outer) = .ok (directory, .directory))
    (there : host.tree.lookup (directory ++ [name]) ≠ some .directory)
    (open_ : host.refusal? directory outer name = none) :
    ∃ journal, host.writeWhole (Location.path (outer ++ [name])) bytes =
      (.ok (), { host with
        tree := host.replaced directory name bytes
        ticket := host.ticket + 1
        journal }) := by
  have isHidden := isName_temporaryName (areNames name (by simp)) host.processId host.ticket
  have apart := temporaryName_ne name host.processId host.ticket
  have longer := temporaryName_longer isUnicode host.processId host.ticket
  unfold writeWhole writeThrough replaced temporaryAt
  unfold refusal? at open_
  rw [temporaryPath_path areNames]
  generalize temporaryName name host.processId host.ticket = hidden at *
  have areHidden : AreNames (outer ++ [hidden]) := areNames.left.append (.singleton isHidden)
  obtain ⟨creation, creates⟩ := Tree.createFile_made areHidden reached open_
  obtain ⟨fits, was⟩ := Tree.lookup_of_refusal open_
  generalize host.tree.isExecutableAt (directory ++ [hidden]) = executable at creates ⊢
  have filled := @Tree.append_created host.tree (directory ++ [hidden]) executable bytes (by simp)
  have reached' := Tree.status_eq_ok_iff.2
    ((@Tree.keeps_set host.tree (directory ++ [hidden]) bytes executable (by simp) was).status
      reached)
  obtain ⟨move, renames⟩ := Tree.rename_entry areNames areHidden reached' apart fits
    (fun long => fits (long.mono longer)) ((Tree.lookup_set _ _ (by simp)).trans (if_pos rfl))
    (by
      rw [Tree.lookup_set _ _ (by simp), if_neg (by simpa using Ne.symm apart)]
      exact there)
  dsimp only
  rw [creates]
  dsimp only
  rw [filled, renames, Tree.erase_set]
  exact ⟨_, rfl⟩

/-- An entry that is a file is written anew, and what bore the temporary name is gone. -/
theorem rewrites_replaced {content : ByteArray} {executable : Bool}
    (there : host.tree.lookup (directory ++ [name]) = some (.file content executable))
    (open_ : host.refusal? directory outer name = none) :
    Tree.Rewrites (· = host.temporaryAt directory name)
      (fun location content => location = directory ++ [name] ∧ content = bytes) host.tree
      (host.replaced directory name bytes) := by
  obtain ⟨-, was⟩ := Tree.lookup_of_refusal open_
  have apart : directory ++ [name] ≠ host.temporaryAt directory name := by
    simpa [temporaryAt] using Ne.symm (temporaryName_ne name host.processId host.ticket)
  constructor
  · intro location
    rw [lookup_replaced]
    by_cases here : location = directory ++ [name]
    · rw [if_pos here, here, there]
      exact .written ⟨rfl, rfl⟩
    · rw [if_neg here]
      by_cases gone : location = host.temporaryAt directory name
      · rw [if_pos gone, gone]
        rcases was with none_ | ⟨old, executable', found⟩
        · rw [temporaryAt, none_]
          exact .same none
        · rw [temporaryAt, found]
          exact .gone rfl
      · rw [if_neg gone]
        exact .same _
  · refine ⟨fun location => location != host.temporaryAt directory name, ?_, ?_⟩
    · rw [replaced, Tree.locations_set, Tree.locations_erase, if_pos]
      exact List.mem_filter.2 ⟨Tree.mem_of_lookup (by simp) there, by simpa using apart⟩
    · intro location gone
      rwa [bne_eq_false_iff_eq] at gone

end Host
end Relink
