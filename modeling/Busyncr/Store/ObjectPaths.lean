import Busyncr.Core.ChunkIdText
import Busyncr.Core.Manifest
import Busyncr.Lib.UnixPath

/-!
The names of the object files: `object_path` and the sweep of leftover
temporary files.
-/

namespace Busyncr.Store

open UnixPath

def tmpPrefix : String := ".tmp-"

/-- `objects/<first2hex>/<hex>`. -/
def objectPath (objects : PathBuf) (id : ChunkId) : PathBuf :=
  let hex := utf8Bytes id.display
  push (push objects (hex.take 2)) hex

/-- Whether the sweep takes a file for a leftover. -/
def isTmp (name : Bytes) : Bool :=
  match fromUtf8? name with
  | none => false
  | some text => tmpPrefix.toList.isPrefixOf text.toList

/-- What came of removing a file. -/
inductive Removal where
  | removed
  | notFound
  | failed
deriving DecidableEq

/-- The sweep of one shard: whether it came to its end, and the names left. -/
def sweepShard (removal : Bytes → Removal) : List Bytes → Bool × List Bytes
  | [] => (true, [])
  | name :: rest =>
      if isTmp name then
        if removal name = .failed then (false, name :: rest)
        else sweepShard removal rest
      else
        let swept := sweepShard removal rest
        (swept.1, name :: swept.2)

/-- An entry of `objects/`; the names in it if it is a directory. -/
structure ShardEntry where
  name : Bytes
  files : Option (List Bytes)

/-- Sweep the shards in listing order, up to the first failure. -/
def sweepTmpFiles (removal : Bytes → Bytes → Removal) :
    List ShardEntry → Bool × List ShardEntry
  | [] => (true, [])
  | shard :: rest =>
      match shard.files with
      | none =>
          let swept := sweepTmpFiles removal rest
          (swept.1, shard :: swept.2)
      | some names =>
          let shardSwept := sweepShard (removal shard.name) names
          if shardSwept.1 then
            let swept := sweepTmpFiles removal rest
            (swept.1, { shard with files := some shardSwept.2 } :: swept.2)
          else (false, { shard with files := some shardSwept.2 } :: rest)

/-- The shard directory holds a file of the name. -/
def Holds (shards : List ShardEntry) (shard name : Bytes) : Prop :=
  ∃ entry ∈ shards, entry.name = shard ∧ ∃ names, entry.files = some names ∧ name ∈ names

theorem mem_sweepShard {removal : Bytes → Removal} {names : List Bytes} {name : Bytes}
    (permanent : isTmp name = false) :
    name ∈ (sweepShard removal names).2 ↔ name ∈ names := by
  induction names with
  | nil => simp [sweepShard]
  | cons head rest inductionHypothesis =>
      by_cases temporary : isTmp head = true
      · have other : name ≠ head := by
          rintro rfl
          rw [permanent] at temporary
          cases temporary
        by_cases failed : removal head = .failed
        · simp [sweepShard, temporary, failed]
        · simp [sweepShard, temporary, failed, inductionHypothesis, other]
      · simp [sweepShard, temporary, inductionHypothesis]

theorem holds_cons {entry : ShardEntry} {rest : List ShardEntry} {shard name : Bytes} :
    Holds (entry :: rest) shard name ↔
      (entry.name = shard ∧ ∃ names, entry.files = some names ∧ name ∈ names) ∨
        Holds rest shard name := by
  simp [Holds]

/-- Only temporary files go, however far the sweep comes. -/
theorem holds_sweepTmpFiles {removal : Bytes → Bytes → Removal} {shards : List ShardEntry}
    {shard name : Bytes} (permanent : isTmp name = false) :
    Holds (sweepTmpFiles removal shards).2 shard name ↔ Holds shards shard name := by
  induction shards with
  | nil => simp [sweepTmpFiles]
  | cons entry rest inductionHypothesis =>
      cases listing : entry.files with
      | none => simp [sweepTmpFiles, listing, holds_cons, inductionHypothesis]
      | some names =>
          have kept : name ∈ (sweepShard (removal entry.name) names).2 ↔ name ∈ names :=
            mem_sweepShard permanent
          by_cases finished : (sweepShard (removal entry.name) names).1 = true
          · simp [sweepTmpFiles, listing, finished, holds_cons, inductionHypothesis, kept]
          · simp [sweepTmpFiles, listing, finished, holds_cons, kept]

/-- The digits are one byte each, and no dot or separator among them. -/
theorem utf8EncodeChar_of_digit {char : Char} (listed : char ∈ Hex.lowercase) :
    ∃ byte, String.utf8EncodeChar char = [byte] ∧ byte ≠ separator ∧ byte ≠ dot := by
  have every : (Hex.lowercase.all fun char => (String.utf8EncodeChar char).length = 1 ∧
      separator ∉ String.utf8EncodeChar char ∧ dot ∉ String.utf8EncodeChar char) = true := by
    decide
  obtain ⟨single, noSeparator, noDot⟩ :=
    of_decide_eq_true (List.all_eq_true.mp every char listed)
  obtain ⟨byte, encoded⟩ := List.length_eq_one_iff.mp single
  rw [encoded] at noSeparator noDot
  exact ⟨byte, encoded, fun same => noSeparator (by simp [same]),
    fun same => noDot (by simp [same])⟩

theorem isName_of_digits {chars : List Char} (nonempty : chars ≠ [])
    (every : ∀ char ∈ chars, char ∈ Hex.lowercase) :
    IsName (utf8Bytes (String.ofList chars)) := by
  have bytes : ∀ byte ∈ utf8Bytes (String.ofList chars), byte ≠ separator ∧ byte ≠ dot := by
    intro byte listed
    rw [utf8Bytes_eq_flatMap, String.toList_ofList] at listed
    obtain ⟨char, inChars, encoded⟩ := List.mem_flatMap.mp listed
    obtain ⟨single, only, noSeparator, noDot⟩ := utf8EncodeChar_of_digit (every char inChars)
    rw [only, List.mem_singleton] at encoded
    subst encoded
    exact ⟨noSeparator, noDot⟩
  have dotless : dot ∉ utf8Bytes (String.ofList chars) := fun listed => (bytes dot listed).2 rfl
  refine ⟨?_, ?_, ?_, fun listed => (bytes separator listed).1 rfl⟩
  · rw [utf8Bytes_eq_flatMap, String.toList_ofList]
    obtain ⟨first, rest, rfl⟩ := List.exists_cons_of_ne_nil nonempty
    obtain ⟨byte, encoded, _⟩ := utf8EncodeChar_of_digit (every first (by simp))
    simp [encoded]
  · intro same
    exact dotless (by simp [same])
  · intro same
    exact dotless (by simp [same])

/-- Digits are one byte each, so byte and character positions agree. -/
theorem take_utf8Bytes {chars : List Char} (count : Nat)
    (every : ∀ char ∈ chars, char ∈ Hex.lowercase) :
    (utf8Bytes (String.ofList chars)).take count =
      utf8Bytes (String.ofList (chars.take count)) := by
  simp only [utf8Bytes_eq_flatMap, String.toList_ofList]
  induction chars generalizing count with
  | nil => simp
  | cons char rest inductionHypothesis =>
      obtain ⟨head, tail⟩ := List.forall_mem_cons.mp every
      obtain ⟨byte, encoded, _⟩ := utf8EncodeChar_of_digit head
      cases count with
      | zero => simp
      | succ count => simp [encoded, inductionHypothesis count tail]

/-- The first two digits of a chunk ID. -/
def shardName (id : ChunkId) : Bytes := utf8Bytes (String.ofList (id.display.toList.take 2))

def objectName (id : ChunkId) : Bytes := utf8Bytes id.display

theorem objectName_injective : Function.Injective objectName := by
  intro left right same
  have read := congrArg fromUtf8? same
  simp only [objectName, fromUtf8?_utf8Bytes] at read
  exact ChunkId.display_injective (Option.some.inj read)

theorem components_objectPath (objects : PathBuf) (id : ChunkId) :
    components (objectPath objects id) =
      components objects ++ [.normal (shardName id), .normal (objectName id)] := by
  have digits : ∀ char ∈ id.display.toList, char ∈ Hex.lowercase := fun char listed =>
    ChunkId.mem_lowercase_of_mem_display listed
  have width : id.display.toList.length = 64 :=
    String.length_toList.trans (ChunkId.length_display id)
  have shard : (objectName id).take 2 = shardName id := by
    have taken := take_utf8Bytes 2 digits
    rwa [String.ofList_toList] at taken
  have shardNamed : IsName (shardName id) := by
    apply isName_of_digits
    · intro empty
      have none := congrArg List.length empty
      rw [List.length_take, width] at none
      simp at none
    · exact fun char listed => digits char (List.mem_of_mem_take listed)
  have objectNamed : IsName (objectName id) := by
    have named := isName_of_digits (by intro empty; simp [empty] at width) digits
    rwa [String.ofList_toList] at named
  have path : objectPath objects id = [shardName id, objectName id].foldl push objects := by
    rw [← shard]
    rfl
  rw [path, components_foldl_push objects (by simp [shardNamed, objectNamed])]
  rfl

/-- An object file is never taken for a leftover. -/
theorem isTmp_objectName (id : ChunkId) : isTmp (objectName id) = false := by
  have first : '.' ∉ id.display.toList := fun listed => by
    have digit := ChunkId.mem_lowercase_of_mem_display listed
    revert digit
    decide
  simp only [isTmp, objectName, fromUtf8?_utf8Bytes]
  cases chars : id.display.toList with
  | nil => decide
  | cons char rest =>
      have other : '.' ≠ char := by
        rintro rfl
        exact first (by simp [chars])
      simp [tmpPrefix, List.isPrefixOf, other]

/-- Chunk IDs and their text: the parser reads back what is shown, accepts
exactly 64 digits of either case and names the first fault otherwise.  Object
files are named apart, lie in the shard of their first two digits and survive
every sweep. -/
theorem chunk_ids_name_objects :
    (∀ id : ChunkId, ChunkId.fromStr id.display = .ok id ∧ id.display.length = 64 ∧
      ∀ char ∈ id.display.toList, char ∈ Hex.lowercase) ∧
    (∀ text : String, (∃ id, ChunkId.fromStr text = .ok id) ↔
      text.length = 64 ∧ ∀ char ∈ text.toList, char ∈ Hex.alphabet) ∧
    (∀ text : String, text.length ≠ 64 →
      ChunkId.fromStr text = .error (.badLength text.length)) ∧
    (∀ (text : String) (bad : Char), text.length = 64 →
      text.toList.find? (fun char => char ∉ Hex.alphabet) = some bad →
        ChunkId.fromStr text = .error (.badChar bad)) ∧
    (∀ (text : String) (id : ChunkId), ChunkId.fromStr text = .ok id →
      id.display.toList = text.toList.map Char.toLower) ∧
    ∀ objects : PathBuf,
      (∀ left right : ChunkId,
        components (objectPath objects left) = components (objectPath objects right) →
          left = right) ∧
      ∀ id : ChunkId,
        components (objectPath objects id) =
          components objects ++ [.normal (shardName id), .normal (objectName id)] ∧
        isTmp (objectName id) = false ∧
        ∀ (removal : Bytes → Bytes → Removal) (shards : List ShardEntry),
          Holds (sweepTmpFiles removal shards).2 (shardName id) (objectName id) ↔
            Holds shards (shardName id) (objectName id) := by
  refine ⟨fun id => ⟨ChunkId.fromStr_display id, ChunkId.length_display id,
      fun char listed => ChunkId.mem_lowercase_of_mem_display listed⟩,
    fun text => ChunkId.exists_fromStr_iff,
    fun text wrong => ChunkId.fromStr_of_length wrong,
    fun text bad width found => ChunkId.fromStr_of_foreign width found,
    fun text id parsed => ChunkId.display_of_fromStr parsed, fun objects => ⟨?_, ?_⟩⟩
  · intro left right same
    rw [components_objectPath, components_objectPath] at same
    apply objectName_injective
    have names := List.append_cancel_left same
    simp only [List.cons.injEq, Component.normal.injEq, and_true] at names
    exact names.2
  · intro id
    exact ⟨components_objectPath objects id, isTmp_objectName id,
      fun removal shards => holds_sweepTmpFiles (isTmp_objectName id)⟩

end Busyncr.Store
