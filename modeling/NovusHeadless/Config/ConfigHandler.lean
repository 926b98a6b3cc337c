import NovusHeadless.Lib.KeyedTree
import NovusHeadless.Console.StringUtils

/-!
# The configuration (`Config/ConfigHandler.h`, `ConfigHandler.cpp`)

`GetOption` goes through the items of the file and into every array and object among them;
`FindOptionInArray` does the same one level deeper, but returns whatever the first array or object gives.

* `Json` is the value of the library; an object has its members in the order of the map, and `items` gives
  an array the indices as keys.
* A conversion `get` fails with an exception, which is `none`.
* `lookup_complete_iff` — when the two searches find what comes first in the pre-order of the items.
-/

namespace NovusHeadless

open Lib

/-- `nlohmann::json`; a floating-point number is given by its bits. -/
inductive Json where
  | null
  | boolean (b : Bool)
  | numberInteger (n : Int64)
  | numberUnsigned (n : UInt64)
  | numberFloat (bits : UInt64)
  | string (s : Bytes)
  | array (elements : List Json)
  | object (members : List (Bytes × Json))

namespace Json

def isStructured : Json → Bool
  | array _ => true
  | object _ => true
  | _ => false

def isNull : Json → Bool
  | null => true
  | _ => false

/-- The elements of an array from an index on, with the keys that `iteration_proxy` makes. -/
def indexed (i : ℕ) : List Json → List (Bytes × Json)
  | [] => []
  | element :: elements => (ascii (toString i), element) :: indexed (i + 1) elements

/-- `items()`; a primitive value is the only item of itself. -/
def items : Json → List (Bytes × Json)
  | null => []
  | array elements => indexed 0 elements
  | object members => members
  | value => [([], value)]

lemma sizeOf_indexed {elements : List Json} {i : ℕ} {item : Bytes × Json}
    (h : item ∈ indexed i elements) : sizeOf item.2 < sizeOf elements := by
  induction elements generalizing i with
  | nil => exact absurd h List.not_mem_nil
  | cons element elements ih =>
    rw [List.cons.sizeOf_spec]
    rcases List.mem_cons.1 h with rfl | h
    · show sizeOf element < _
      omega
    · have := ih h
      omega

theorem sizeOf_items (value : Json) (item : Bytes × Json) (h : item ∈ value.items)
    (hs : item.2.isStructured = true) : sizeOf item.2 < sizeOf value := by
  cases value with
  | null => exact absurd h List.not_mem_nil
  | array elements =>
    have := sizeOf_indexed h
    rw [Json.array.sizeOf_spec]
    omega
  | object members =>
    have hmem := List.sizeOf_lt_of_mem (show item ∈ members from h)
    obtain ⟨key, v⟩ := item
    rw [Prod.mk.sizeOf_spec] at hmem
    rw [Json.object.sizeOf_spec]
    show sizeOf v < _
    omega
  | boolean | numberInteger | numberUnsigned | numberFloat | string =>
    obtain rfl := List.mem_singleton.1 h
    exact absurd hs Bool.false_ne_true

/-- The tree of a value. -/
noncomputable def tree : KeyedTree Bytes Json where
  items := items
  descends := isStructured
  size := fun value => sizeOf value
  size_lt := sizeOf_items

/-- `get<std::string>()`. -/
def getString : Json → Option Bytes
  | string s => some s
  | _ => none

end Json

namespace ConfigHandler

/-- `FindOptionInArray`; `rest` is what the loop does with the items that follow. -/
def findOptionInArray (optionName : Bytes) (value : Json) : Json :=
  value.items.attach.foldr (fun itr rest =>
    if itr.1.1 = optionName then itr.1.2
    else if itr.1.2.isStructured = true then findOptionInArray optionName itr.1.2
    else rest) .null
termination_by sizeOf value
decreasing_by exact Json.sizeOf_items value itr.1 itr.2 ‹_›

/-- The loop of `GetOption`. -/
def findValue (optionName : Bytes) (configFile : Json) : Json :=
  configFile.items.foldr (fun itr rest =>
    if itr.1 = optionName then itr.2
    else if itr.2.isStructured = true then
      let tempValue := findOptionInArray optionName itr.2
      if !tempValue.isNull then tempValue else rest
    else rest) .null

def getOption {α : Type} (get : Json → Option α) (configFile : Json) (optionName : Bytes)
    (defaultValue : α) : α :=
  let value := findValue optionName configFile
  if value.isNull then defaultValue else (get value).getD defaultValue

/-! ### What the searches find -/

section

variable {optionName : Bytes} {value configFile : Json} {items : List (Bytes × Json)}

/-- No value below is null. -/
def NoNull (value : Json) : Prop := ∀ item ∈ Json.tree.entries value, item.2.isNull = false

/-- The loop of `FindOptionInArray` over a list of items. -/
def findInItems (optionName : Bytes) (items : List (Bytes × Json)) : Json :=
  items.foldr (fun itr rest =>
    if itr.1 = optionName then itr.2
    else if itr.2.isStructured = true then findOptionInArray optionName itr.2
    else rest) .null

lemma findOptionInArray_eq (optionName : Bytes) (value : Json) :
    findOptionInArray optionName value = findInItems optionName value.items := by
  rw [findOptionInArray]
  exact List.foldr_attach (f := fun (itr : Bytes × Json) rest =>
    if itr.1 = optionName then itr.2
    else if itr.2.isStructured = true then findOptionInArray optionName itr.2
    else rest)

/-- The first value of a name, or null. -/
def firstValue (optionName : Bytes) (items : List (Bytes × Json)) : Json :=
  (items.lookup optionName).getD .null

lemma firstValue_cons (item : Bytes × Json) (items : List (Bytes × Json)) :
    firstValue optionName (item :: items) =
      if item.1 = optionName then item.2 else firstValue optionName items := by
  unfold firstValue
  rw [KeyedTree.lookup_item]
  by_cases h : item.1 = optionName
  · rw [if_pos h, if_pos (beq_iff_eq.2 h.symm), Option.getD_some]
  · rw [if_neg h, if_neg (fun heq => h (beq_iff_eq.1 heq).symm)]

lemma findInItems_eq_firstValue
    (h : ∀ item ∈ items, item.2.isStructured = true →
      findOptionInArray optionName item.2 = firstValue optionName (Json.tree.searched item.2)) :
    findInItems optionName items = firstValue optionName (Json.tree.path items) := by
  induction items with
  | nil => rfl
  | cons item items ih =>
    obtain ⟨hfirst, hothers⟩ := List.forall_mem_cons.1 h
    rw [KeyedTree.path_cons, firstValue_cons]
    show (if item.1 = optionName then item.2
      else if item.2.isStructured = true then findOptionInArray optionName item.2
      else findInItems optionName items) = _
    by_cases hname : item.1 = optionName
    · rw [if_pos hname, if_pos hname]
    · rw [if_neg hname, if_neg hname]
      by_cases hs : item.2.isStructured = true
      · rw [if_pos hs, if_pos (show Json.tree.descends item.2 = true from hs), hfirst hs]
      · rw [if_neg hs, if_neg (show ¬ Json.tree.descends item.2 = true from hs), ih hothers]

/-- **`FindOptionInArray`** finds the first value of the name among the items it comes across. -/
theorem findOptionInArray_eq_firstValue (optionName : Bytes) (value : Json) :
    findOptionInArray optionName value = firstValue optionName (Json.tree.searched value) := by
  induction value using Json.tree.induct with
  | h value ih =>
    rw [findOptionInArray_eq, KeyedTree.searched_eq]
    exact findInItems_eq_firstValue ih

/-- What a name has first is null only if the name is missing. -/
lemma firstValue_isNull (h : ∀ item ∈ items, item.2.isNull = false) :
    (firstValue optionName items).isNull = true ↔ items.lookup optionName = none := by
  unfold firstValue
  cases hlookup : items.lookup optionName with
  | none => exact iff_of_true rfl rfl
  | some v =>
    obtain ⟨before, after, heq, -⟩ := List.lookup_eq_some_iff.1 hlookup
    have hv := h (optionName, v) (by rw [heq]; simp)
    rw [Option.getD_some, hv]
    exact iff_of_false Bool.false_ne_true (Option.some_ne_none v)

lemma noNull_searched (h : NoNull value) :
    ∀ item ∈ Json.tree.searched value, item.2.isNull = false :=
  fun item hitem => h item ((Json.tree.searched_isPrefix value).subset hitem)

lemma findOptionInArray_isNull (h : NoNull value) :
    (findOptionInArray optionName value).isNull = true ↔
      (Json.tree.searched value).lookup optionName = none := by
  rw [findOptionInArray_eq_firstValue]
  exact firstValue_isNull (noNull_searched h)

lemma noNull_of_mem {item : Bytes × Json} (h : ∀ i ∈ Json.tree.below items, i.2.isNull = false)
    (hitem : item ∈ items) (hs : item.2.isStructured = true) : NoNull item.2 := by
  intro i hi
  apply h
  unfold KeyedTree.below
  rw [List.mem_flatMap]
  refine ⟨item, hitem, List.mem_cons_of_mem _ ?_⟩
  rwa [if_pos (show Json.tree.descends item.2 = true from hs)]

/-- **`GetOption`** reads the first value of the name among the items it comes across. -/
theorem findValue_eq_firstValue (h : NoNull configFile) :
    findValue optionName configFile =
      firstValue optionName (Json.tree.reached configFile.items) := by
  unfold NoNull at h
  rw [KeyedTree.entries_eq] at h
  show configFile.items.foldr _ _ = _
  have hitems : ∀ item ∈ configFile.items, item.2.isStructured = true → NoNull item.2 :=
    fun item hitem => noNull_of_mem h hitem
  generalize configFile.items = items at hitems
  clear h
  induction items with
  | nil => rfl
  | cons item items ih =>
    obtain ⟨hfirst, hothers⟩ := List.forall_mem_cons.1 hitems
    rw [List.foldr_cons, ih hothers]
    rw [KeyedTree.reached_cons, firstValue_cons]
    by_cases hname : item.1 = optionName
    · rw [if_pos hname, if_pos hname]
    · rw [if_neg hname, if_neg hname]
      by_cases hs : item.2.isStructured = true
      · rw [if_pos hs, if_pos (show Json.tree.descends item.2 = true from hs)]
        have hnull := @findOptionInArray_isNull optionName item.2 (hfirst hs)
        show (if !(findOptionInArray optionName item.2).isNull then _ else _) =
          ((Json.tree.searched item.2 ++ Json.tree.reached items).lookup optionName).getD .null
        rw [List.lookup_append]
        cases hlookup : (Json.tree.searched item.2).lookup optionName with
        | none =>
          rw [hnull.2 hlookup, if_neg (by decide), Option.none_or]
          rfl
        | some v =>
          have hfound : (findOptionInArray optionName item.2).isNull = false := by
            rw [Bool.eq_false_iff]
            intro h
            exact Option.some_ne_none v (hlookup.symm.trans (hnull.1 h))
          rw [hfound, if_pos (show (!false) = true from rfl), findOptionInArray_eq_firstValue]
          unfold firstValue
          rw [hlookup, Option.some_or]
      · rw [if_neg hs, if_neg (show ¬ Json.tree.descends item.2 = true from hs), List.nil_append]

end

/-! ### What the searches are for -/

section

variable {optionName : Bytes} {value configFile : Json}

/-- The option is the first value of the name in the pre-order, or the default if the name is missing or
its value cannot be converted. -/
def OptionComplete (configFile : Json) (optionName : Bytes) : Prop :=
  ∀ (α : Type) (get : Json → Option α) (defaultValue : α),
    getOption get configFile optionName defaultValue =
      (((Json.tree.entries configFile).lookup optionName).bind get).getD defaultValue

/-- The search in a value gives null only if the name is nowhere below. -/
def FindComplete (value : Json) (optionName : Bytes) : Prop :=
  (findOptionInArray optionName value).isNull = true →
    ∀ item ∈ Json.tree.entries value, item.1 ≠ optionName

lemma getOption_eq {α : Type} (get : Json → Option α) (defaultValue : α) (h : NoNull configFile) :
    getOption get configFile optionName defaultValue =
      (((Json.tree.reached configFile.items).lookup optionName).bind get).getD defaultValue := by
  have hnull : ∀ item ∈ Json.tree.reached configFile.items, item.2.isNull = false := by
    unfold NoNull at h
    rw [KeyedTree.entries_eq] at h
    exact fun item hitem => h item (Json.tree.reached_subset _ hitem)
  unfold getOption
  rw [findValue_eq_firstValue h]
  have hfirst := @firstValue_isNull optionName _ hnull
  unfold firstValue at hfirst ⊢
  cases hlookup : (Json.tree.reached configFile.items).lookup optionName with
  | none => rfl
  | some v =>
    rw [hlookup] at hfirst
    have hv : (v.isNull) = false := by
      rw [Bool.eq_false_iff]
      exact fun h => Option.some_ne_none v (hfirst.1 h)
    simp only [Option.getD_some, Option.bind_some, hv]
    rfl

theorem optionComplete_iff (h : NoNull configFile) (optionName : Bytes) :
    OptionComplete configFile optionName ↔
      Json.tree.FoundAfter optionName configFile.items := by
  rw [← KeyedTree.lookup_reached_iff]
  constructor
  · intro hcomplete
    -- a conversion that never fails tells the value from the default
    have hread := hcomplete (Option Json) (fun v => some (some v)) none
    rw [getOption_eq _ _ h, KeyedTree.entries_eq] at hread
    have hid : ∀ o : Option Json, (o.bind fun v => some (some v)).getD none = o := by
      rintro (_ | v) <;> rfl
    rwa [hid, hid] at hread
  · intro heq α get defaultValue
    rw [getOption_eq get defaultValue h, heq, KeyedTree.entries_eq]
    rfl

theorem findComplete_iff (h : NoNull value) (optionName : Bytes) :
    FindComplete value optionName ↔ ¬ Json.tree.Hidden optionName value := by
  have hmissing : (Json.tree.entries value).lookup optionName = none ↔
      ∀ item ∈ Json.tree.entries value, item.1 ≠ optionName := by
    rw [List.lookup_eq_none_iff]
    simp only [bne_iff_ne, ne_comm]
  unfold FindComplete
  rw [findOptionInArray_isNull h, KeyedTree.not_hidden_iff, hmissing]

/-- In words: the name is no key below the value, or an entry with the name is within reach. -/
theorem findComplete_iff_withinReach (h : NoNull value) (optionName : Bytes) :
    FindComplete value optionName ↔
      ((Json.tree.entries value).lookup optionName ≠ none →
        ∃ item, Json.tree.WithinReach value item ∧ (optionName == item.1) = true) := by
  rw [findComplete_iff h, KeyedTree.hidden_iff]
  simp only [not_and, not_forall, Bool.not_eq_false, exists_prop]

/-- **The exact conditions** for the two searches. -/
theorem lookup_complete_iff (hconfig : NoNull configFile) (hvalue : NoNull value)
    (optionName : Bytes) :
    (OptionComplete configFile optionName ↔
        Json.tree.FoundAfter optionName configFile.items) ∧
      (FindComplete value optionName ↔ ¬ Json.tree.Hidden optionName value) :=
  ⟨optionComplete_iff hconfig optionName, findComplete_iff hvalue optionName⟩

lemma not_hidden_of_flat (h : ∀ item ∈ value.items, item.2.isStructured = false) :
    ¬ Json.tree.Hidden optionName value := by
  rintro ⟨-, hskipped⟩
  rw [KeyedTree.skipped_eq_nil h] at hskipped
  exact hskipped rfl

lemma foundAfter_of_flat
    (h : ∀ item ∈ configFile.items, ∀ i ∈ item.2.items, i.2.isStructured = false) :
    Json.tree.FoundAfter optionName configFile.items := by
  intro before item after heq _ _ _ hhidden
  have hmem : item ∈ configFile.items := by
    rw [heq]
    exact List.mem_append_right _ List.mem_cons_self
  exact absurd hhidden (not_hidden_of_flat (h item hmem))

end

/-! ### Two files -/

/-- The network section of a file. -/
def network : Json :=
  .object [(ascii "address", .string (ascii "127.0.0.1")), (ascii "port", .numberUnsigned 3724)]

/-- A file with one section. -/
def flatFile : Json := .object [(ascii "network", network)]

lemma entries_network : Json.tree.entries network = network.items :=
  KeyedTree.entries_eq_items (by decide)

lemma entries_flatFile :
    Json.tree.entries flatFile = (ascii "network", network) :: network.items := by
  rw [KeyedTree.entries_eq]
  show Json.tree.below [(ascii "network", network)] = _
  rw [KeyedTree.below_singleton, if_pos (show Json.tree.descends network = true from rfl),
    entries_network]

lemma noNull_network : NoNull network := by
  unfold NoNull
  rw [entries_network]
  decide

lemma noNull_flatFile : NoNull flatFile := by
  unfold NoNull
  rw [entries_flatFile]
  decide

theorem lookup_complete_iff_port :
    OptionComplete flatFile (ascii "port") ∧ FindComplete network (ascii "port") :=
  have h := lookup_complete_iff noNull_flatFile noNull_network (ascii "port")
  ⟨h.1.2 (foundAfter_of_flat (by decide)), h.2.2 (not_hidden_of_flat (by decide))⟩

/-- A section with an option behind another section. -/
def client : Json := .object [(ascii "network", network), (ascii "path", .string (ascii "lua"))]

def hiddenPath : Json := .object [(ascii "client", client)]

lemma entries_client :
    Json.tree.entries client =
      (ascii "network", network) :: (network.items ++ [(ascii "path", .string (ascii "lua"))]) := by
  rw [KeyedTree.entries_eq]
  show Json.tree.below [(ascii "network", network), (ascii "path", .string (ascii "lua"))] = _
  rw [KeyedTree.below_cons, KeyedTree.below_singleton, KeyedTree.below_singleton,
    if_pos (show Json.tree.descends network = true from rfl), entries_network]
  rfl

lemma entries_hiddenPath :
    Json.tree.entries hiddenPath = (ascii "client", client) :: Json.tree.entries client := by
  rw [KeyedTree.entries_eq]
  show Json.tree.below [(ascii "client", client)] = _
  rw [KeyedTree.below_singleton, if_pos (show Json.tree.descends client = true from rfl)]

lemma searched_client :
    Json.tree.searched client = (ascii "network", network) :: network.items := by
  rw [KeyedTree.searched_eq]
  show Json.tree.path [(ascii "network", network), (ascii "path", .string (ascii "lua"))] = _
  rw [KeyedTree.path_cons, if_pos (show Json.tree.descends network = true from rfl),
    KeyedTree.searched_eq, KeyedTree.path_eq_self (by decide)]
  rfl

lemma noNull_hiddenPath : NoNull hiddenPath := by
  unfold NoNull
  rw [entries_hiddenPath, entries_client]
  decide

lemma findOptionInArray_client : (findOptionInArray (ascii "path") client).isNull = true := by
  rw [findOptionInArray_eq_firstValue, searched_client]
  decide

/-- `GetOption<std::string>("path", "scripts")` does not find the path behind the inner section. -/
theorem path_behind_section_lost :
    NoNull hiddenPath ∧
      getOption Json.getString hiddenPath (ascii "path") (ascii "scripts") = ascii "scripts" ∧
      ¬ OptionComplete hiddenPath (ascii "path") ∧ ¬ FindComplete client (ascii "path") := by
  have hdefault :
      getOption Json.getString hiddenPath (ascii "path") (ascii "scripts") = ascii "scripts" := by
    have hreached : (Json.tree.reached hiddenPath.items).lookup (ascii "path") = none := by
      show (Json.tree.reached [(ascii "client", client)]).lookup (ascii "path") = none
      rw [KeyedTree.reached_cons, if_pos (show Json.tree.descends client = true from rfl),
        searched_client]
      decide
    rw [getOption_eq Json.getString _ noNull_hiddenPath, hreached]
    rfl
  refine ⟨noNull_hiddenPath, hdefault, ?_, ?_⟩
  · intro h
    have hlookup : (Json.tree.entries hiddenPath).lookup (ascii "path") =
        some (.string (ascii "lua")) := by
      rw [entries_hiddenPath, entries_client]
      rfl
    have hread := h Bytes Json.getString (ascii "scripts")
    rw [hdefault, hlookup] at hread
    exact absurd hread (by decide)
  · intro h
    apply h findOptionInArray_client (ascii "path", .string (ascii "lua"))
    · rw [entries_client]
      exact List.mem_cons_of_mem _ (List.mem_append_right _ List.mem_cons_self)
    · rfl

end ConfigHandler

end NovusHeadless
