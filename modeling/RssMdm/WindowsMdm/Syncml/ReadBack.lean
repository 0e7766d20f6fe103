/- module: WindowsMdm/Syncml/ReadBack
   source: crates/windows-mdm/src/syncml.rs
   digest: Each reader returns what its writer wrote, or refuses metainformation that was never
   validated. -/

import RssMdm.WindowsMdm.Syncml.Decode
import RssMdm.WindowsMdm.Xml.Feeds

set_option autoImplicit false

namespace RssMdm.WindowsMdm.Syncml

open Lib.Fallible Lib.Outcome Lib.Text
open WindowsMdm.Xml
open List (all_eq_true append_assoc length_cons)

section

variable {A : List (String × String)} {rest : List Call} {e : String × String} {calls : List Call}

theorem follows_element (h : upcoming NS calls = some (some e)) (other : A.contains e = false) :
    follows NS A calls = true := by
  rw [follows, all_eq_true]
  intro x hx
  rw [differs_iff]
  refine ⟨_, h, ?_⟩
  intro same
  injection same with same
  rw [List.contains_eq_mem, decide_eq_false_iff_not] at other
  exact other (same ▸ hx)

theorem follows_closing (h : upcoming NS calls = some none) :
    follows NS A calls = true := by
  rw [follows, all_eq_true]
  intro x _
  rw [differs_iff]
  exact ⟨_, h, by simp⟩

theorem differs_of_follows (h : follows NS [e] rest = true) :
    differs NS rest e = true := by
  simpa [follows] using h

theorem differs_of_mem (h : follows NS A rest = true) (mem : e ∈ A) :
    differs NS rest e = true :=
  all_eq_true.mp h e mem

theorem differs_element {e' : String × String} (h : upcoming NS calls = some (some e))
    (other : e ≠ e') : differs NS calls e' = true := by
  rw [differs_iff]
  exact ⟨_, h, by simpa using other⟩

theorem follows_skip {part : List Call}
    (h : part = [] ∨ ∀ rest, upcoming NS (part ++ rest) = some (some e))
    (other : A.contains e = false) (later : follows NS A rest = true) :
    follows NS A (part ++ rest) = true := by
  rcases h with rfl | h
  · exact later
  · exact follows_element (h rest) other

theorem start_optionalLocation (l : CodecLimits) (name : String) (v : Option String) :
    writeOptionalLocation l name v = [] ∨
      ∀ rest, upcoming NS (writeOptionalLocation l name v ++ rest) = some (some (NS, name)) := by
  cases v with
  | none => exact .inl rfl
  | some => exact .inr (fun rest => rfl)

theorem start_meta (l : CodecLimits) (m : Option Meta) :
    writeMeta l m = [] ∨
      ∀ rest, upcoming NS (writeMeta l m ++ rest) = some (some (NS, "Meta")) := by
  cases m with
  | none => exact .inl rfl
  | some => exact .inr (fun rest => rfl)

theorem start_data (l : CodecLimits) (v : Option String) :
    writeData l v = [] ∨
      ∀ rest, upcoming NS (writeData l v ++ rest) = some (some (NS, "Data")) := by
  cases v with
  | none => exact .inl rfl
  | some => exact .inr (fun rest => rfl)

theorem start_moreData (moreData : Bool) :
    writeMoreData moreData = [] ∨
      ∀ rest, upcoming NS (writeMoreData moreData ++ rest) = some (some (NS, "MoreData")) := by
  cases moreData with
  | false => exact .inl rfl
  | true => exact .inr (fun rest => rfl)

theorem start_items (l : CodecLimits) (items : List Item) :
    writeItems l items = [] ∨
      ∀ rest, upcoming NS (writeItems l items ++ rest) = some (some (NS, "Item")) := by
  cases items with
  | nil => exact .inl rfl
  | cons => exact .inr (fun rest => rfl)

theorem start_challenge (l : CodecLimits) (c : Option Challenge) :
    writeChallenge l c = [] ∨
      ∀ rest, upcoming NS (writeChallenge l c ++ rest) = some (some (NS, "Chal")) := by
  cases c with
  | none => exact .inl rfl
  | some => exact .inr (fun rest => rfl)

theorem start_refsOf (l : CodecLimits) (name : String) (refs : List String) :
    writeRefsOf l name refs = [] ∨
      ∀ rest, upcoming NS (writeRefsOf l name refs ++ rest) = some (some (NS, name)) := by
  cases refs with
  | nil => exact .inl rfl
  | cons => exact .inr (fun rest => rfl)

theorem start_optionalNum (l : CodecLimits) (name : String) (n : Option UInt32) :
    writeOptionalNum l name n = [] ∨
      ∀ rest, upcoming NS (writeOptionalNum l name n ++ rest) = some (some (NS, name)) := by
  cases n with
  | none => exact .inl rfl
  | some => exact .inr (fun rest => rfl)

end

variable {l : CodecLimits} {fuel : Nat}

theorem number_decimal (n : UInt32) (zero : Bool) :
    number (decimal n) zero =
      if zero || decide (n ≠ 0) then .ok n else .error .invalidValue := by
  have digits : (decimal n).toList = Nat.toDigits 10 n.toNat := by
    rw [decimal, Nat.toString_eq_ofList_toDigits, String.toList_ofList]
  have nonempty : (decimal n).isEmpty = false := by
    rw [← Bool.not_eq_true, String.isEmpty_iff]
    intro empty
    rw [empty] at digits
    exact Nat.toDigits_ne_nil digits.symm
  have all : (decimal n).toList.all Char.isDigit = true := by
    rw [digits, all_eq_true]
    intro c hc
    exact Nat.isDigit_of_mem_toDigits (by decide) (by decide) hc
  have value : Nat.ofDigitChars 10 (decimal n).toList 0 = n.toNat := by
    rw [digits, Nat.ofDigitChars_toDigits (by decide) (by decide)]
  have small : ¬n.toNat ≥ 2 ^ 32 := Nat.not_le.mpr n.toNat_lt
  have zeroIff : n.toNat = 0 ↔ n = 0 := by
    rw [← UInt32.toNat_inj]
    rfl
  simp only [number, nonempty, all, value, small, zeroIff, UInt32.ofNat_toNat]
  by_cases hn : n = 0
  · cases zero <;> simp [hn]
  · cases zero <;> simp [hn]

theorem num_feeds (name : String) (n : UInt32) (zero : Bool) (A : List (String × String)) :
    Feeds l fuel NS 0 (num l fuel name zero) (writeNum l name n) A (zero || decide (n ≠ 0)) n :=
  (Feeds.check (Feeds.scalar name (decimal n) l.identifierBytes false A)
    (number_decimal n zero)).cast rfl (Bool.true_and _) rfl

theorem location_feeds (name value : String) (A : List (String × String)) :
    Feeds l fuel NS 0 (location l fuel name) (writeLocation l name value) A true value :=
  .enter (.seq (.scalar "LocURI" value l.uriBytes false [])
    (.close (.pure A value)) (fun _ _ => rfl))

theorem optionalLocation_feeds (name : String) (value : Option String) :
    Feeds l fuel NS 0 (optionalLocation l fuel name) (writeOptionalLocation l name value)
      [(NS, name)] true value := by
  cases value with
  | none =>
    refine .is_false ?_ (.pure _ none)
    exact fun rest h => differs_of_follows h
  | some v =>
    refine .is_true (fun rest => rfl) ?_
    exact (Feeds.seq (location_feeds name v []) (Feeds.pure _ (some v)) (fun _ _ => rfl)).cast
      (by simp [writeOptionalLocation]) rfl rfl

theorem readData_feeds (value : Option String) :
    Feeds l fuel NS 0 (readData l fuel) (writeData l value) [(NS, "Data")] true value := by
  cases value with
  | none =>
    refine .is_false ?_ (.pure _ none)
    exact fun rest h => differs_of_follows h
  | some v =>
    refine .is_true (fun rest => rfl) ?_
    exact (Feeds.seq (Feeds.scalar "Data" v l.objectBytes true []) (Feeds.pure _ (some v))
      (fun _ _ => rfl)).cast (by simp [writeData]) rfl rfl

theorem marker_feeds (name : String) (present : Bool) :
    Feeds l fuel NS 0 (marker l fuel name) (if present then Call.hollow name else [])
      [(NS, name)] true present := by
  cases present with
  | false =>
    refine .is_false ?_ (.pure _ false)
    exact fun rest h => differs_of_follows h
  | true =>
    refine .is_true (fun rest => rfl) ?_
    exact .enter (.close (.pure _ true))

inductive MetaField where
  | format (value : String)
  | mediaType (value : String)
  | maxMessageSize (value : UInt32)
  | maxObjectSize (value : UInt32)
  | size (value : UInt32)

namespace MetaField

def calls (l : CodecLimits) : MetaField → List Call
  | format v => metaLeaf "Format" v l.identifierBytes
  | mediaType v => metaLeaf "Type" v l.uriBytes
  | maxMessageSize v => metaLeaf "MaxMsgSize" (decimal v) l.identifierBytes
  | maxObjectSize v => metaLeaf "MaxObjSize" (decimal v) l.identifierBytes
  | size v => metaLeaf "Size" (decimal v) l.identifierBytes

/-- What the reader asks of the element. -/
def readable : MetaField → Bool
  | format v => !blank v
  | mediaType v => !blank v
  | maxMessageSize v => v ≠ 0
  | maxObjectSize v => v ≠ 0
  | size _ => true

def set (m : Meta) : MetaField → Meta
  | format v => { m with format := some v }
  | mediaType v => { m with mediaType := some v }
  | maxMessageSize v => { m with maxMessageSize := some v }
  | maxObjectSize v => { m with maxObjectSize := some v }
  | size v => { m with size := some v }

def fresh (m : Meta) : MetaField → Bool
  | format _ => m.format.isNone
  | mediaType _ => m.mediaType.isNone
  | maxMessageSize _ => m.maxMessageSize.isNone
  | maxObjectSize _ => m.maxObjectSize.isNone
  | size _ => m.size.isNone

def freshAll : Meta → List MetaField → Bool
  | _, [] => true
  | m, f :: fs => f.fresh m && freshAll (f.set m) fs

end MetaField

def metaNames : List (String × String) :=
  [(META, "Format"), (META, "Type"), (META, "MaxMsgSize"), (META, "Size"), (META, "MaxObjSize")]

theorem blank_decimal (n : UInt32) : blank (decimal n) = false := by
  have digits : (decimal n).toList = Nat.toDigits 10 n.toNat := by
    rw [decimal, Nat.toString_eq_ofList_toDigits, String.toList_ofList]
  rw [blank, digits]
  cases h : Nat.toDigits 10 n.toNat with
  | nil => exact absurd h Nat.toDigits_ne_nil
  | cons c =>
    have digit : c.isDigit = true :=
      Nat.isDigit_of_mem_toDigits (by decide) (by decide) (h ▸ List.mem_cons_self)
    have plain : isWhitespace c = false := by
      simp only [Char.isDigit, ge_iff_le, Bool.and_eq_true, decide_eq_true_eq] at digit
      have low : 48 ≤ c.toNat := UInt32.le_iff_toNat_le.mp digit.1
      have high : c.toNat ≤ 57 := UInt32.le_iff_toNat_le.mp digit.2
      unfold isWhitespace
      simp
      omega
    rw [List.all_cons, plain, Bool.false_and]

variable {name : String}

theorem metaField_feeds {α : Type} {value : String} {max : Nat}
    {read : String → Except CodecError α} (next : α → Parser Meta) {calls : List Call}
    {A : List (String × String)} {V good : Bool} {a : α} {m : Meta}
    (hread : read value = if V then .ok a else .error .invalidValue)
    (h : Feeds l fuel NS 0 (next a) calls A good m) :
    Feeds l fuel NS 0 (metaField l fuel name max read false next)
      (metaLeaf name value max ++ calls) A ((!blank value && V) && good) m := by
  have leaf : Feeds l fuel NS 0 (Input.scalar l fuel META name max false) (metaLeaf name value max)
      [] (!blank value) value := .leaf name value [("xmlns", META)] max false []
  have checked := Feeds.check leaf hread
  have all := Feeds.bind (g := fun v => if false = true then fail .duplicate else next v) checked h
    (fun _ _ => rfl)
  intro p scope rest avoided ready
  have here := all p scope rest avoided ready
  have assoc : metaField l fuel name max read false next =
      ((Input.scalar l fuel META name max false >>= fun s => Xml.lift (read s)) >>= fun v =>
        if false = true then fail .duplicate else next v) := by
    rw [metaField, bind_assoc]
  rw [assoc]
  exact here

attribute [local simp] MetaField.fresh MetaField.readable

theorem metaLoop_feeds {fields : List MetaField} {n : Nat} {m : Meta} (rounds : fields.length < n)
    (fresh : MetaField.freshAll m fields = true) :
    Feeds l fuel NS 0 (metaLoop l fuel n m) (fields.flatMap (MetaField.calls l)) metaNames
      (fields.all MetaField.readable) (fields.foldl MetaField.set m) := by
  induction fields generalizing n m with
  | nil =>
    cases n with
    | zero => cases rounds
    | succ =>
      rw [metaLoop]
      refine .is_false (fun rest h => differs_of_mem h (by decide)) ?_
      refine .is_false (fun rest h => differs_of_mem h (by decide)) ?_
      refine .is_false (fun rest h => differs_of_mem h (by decide)) ?_
      refine .is_false (fun rest h => differs_of_mem h (by decide)) ?_
      refine .is_false (fun rest h => differs_of_mem h (by decide)) ?_
      exact .pure _ m
  | cons f _ ih =>
    cases n with
    | zero => cases rounds
    | succ n =>
      simp only [MetaField.freshAll, Bool.and_eq_true] at fresh
      have later := ih (n := n) (m := f.set m) (Nat.lt_of_succ_lt_succ rounds) fresh.2
      rw [metaLoop]
      cases f with
      | format =>
        have absent : m.format.isSome = false := by simpa using fresh.1
        simp only [absent]
        refine .is_true (fun rest => rfl) ?_
        exact (metaField_feeds (fun w => metaLoop l fuel n { m with format := some w })
          (V := true) rfl later).cast rfl (by simp) rfl
      | mediaType =>
        have absent : m.mediaType.isSome = false := by simpa using fresh.1
        simp only [absent]
        refine .is_false (fun rest _ => differs_element rfl (by decide)) ?_
        refine .is_true (fun rest => rfl) ?_
        exact (metaField_feeds (fun w => metaLoop l fuel n { m with mediaType := some w })
          (V := true) rfl later).cast rfl (by simp) rfl
      | maxMessageSize v =>
        have absent : m.maxMessageSize.isSome = false := by
          simpa using fresh.1
        simp only [absent]
        refine .is_false (fun rest _ => differs_element rfl (by decide)) ?_
        refine .is_false (fun rest _ => differs_element rfl (by decide)) ?_
        refine .is_true (fun rest => rfl) ?_
        exact (metaField_feeds (fun w => metaLoop l fuel n { m with maxMessageSize := some w })
          (number_decimal v false) later).cast rfl (by simp [blank_decimal]) rfl
      | size v =>
        have absent : m.size.isSome = false := by simpa using fresh.1
        simp only [absent]
        refine .is_false (fun rest _ => differs_element rfl (by decide)) ?_
        refine .is_false (fun rest _ => differs_element rfl (by decide)) ?_
        refine .is_false (fun rest _ => differs_element rfl (by decide)) ?_
        refine .is_true (fun rest => rfl) ?_
        exact (metaField_feeds (fun w => metaLoop l fuel n { m with size := some w })
          (number_decimal v true) later).cast rfl (by simp [blank_decimal]) rfl
      | maxObjectSize v =>
        have absent : m.maxObjectSize.isSome = false := by
          simpa using fresh.1
        simp only [absent]
        refine .is_false (fun rest _ => differs_element rfl (by decide)) ?_
        refine .is_false (fun rest _ => differs_element rfl (by decide)) ?_
        refine .is_false (fun rest _ => differs_element rfl (by decide)) ?_
        refine .is_false (fun rest _ => differs_element rfl (by decide)) ?_
        refine .is_true (fun rest => rfl) ?_
        exact (metaField_feeds (fun w => metaLoop l fuel n { m with maxObjectSize := some w })
          (number_decimal v false) later).cast rfl (by simp [blank_decimal]) rfl

/-- Metainformation that the reader takes: no blank text and no size limit of zero. -/
def Meta.readable (m : Meta) : Bool :=
  !m.format.any blank && !m.mediaType.any blank && decide (m.maxMessageSize ≠ some 0) &&
    decide (m.maxObjectSize ≠ some 0)

def Meta.fields (m : Meta) : List MetaField :=
  m.format.toList.map .format ++ (m.mediaType.toList.map .mediaType ++
    (m.maxMessageSize.toList.map .maxMessageSize ++ (m.maxObjectSize.toList.map .maxObjectSize ++
      m.size.toList.map .size)))

theorem Meta.fields_calls (m : Meta) : m.fields.flatMap (MetaField.calls l) = metaBody l m := by
  simp [Meta.fields, metaBody, metaNumber, List.flatMap_map, MetaField.calls]

theorem Meta.fields_fresh (m : Meta) : MetaField.freshAll Meta.empty m.fields = true := by
  rcases m with ⟨_ | _, _ | _, _ | _, _ | _, _ | _⟩ <;> rfl

theorem Meta.fields_set (m : Meta) : m.fields.foldl MetaField.set Meta.empty = m := by
  rcases m with ⟨_ | _, _ | _, _ | _, _ | _, _ | _⟩ <;> rfl

theorem Meta.fields_readable (m : Meta) : m.fields.all MetaField.readable = m.readable := by
  rcases m with ⟨_ | _, _ | _, _ | _, _ | _, _ | _⟩ <;>
    simp [Meta.fields, Meta.readable, Bool.and_assoc]

theorem tokenCount_append (a b : List Call) : tokenCount (a ++ b) = tokenCount a + tokenCount b := by
  induction a with
  | nil => simp [tokenCount]
  | cons c _ ih =>
    rw [List.cons_append]
    cases c <;> simp only [tokenCount, ih] <;> omega

theorem tokenCount_fields (fields : List MetaField) :
    fields.length ≤ tokenCount (fields.flatMap (MetaField.calls l)) := by
  induction fields with
  | nil => exact Nat.le_refl 0
  | cons f =>
    rw [List.flatMap_cons, tokenCount_append, length_cons]
    have one : 1 ≤ tokenCount (f.calls l) := by
      cases f <;> exact Nat.le_add_left 1 _
    omega

theorem readMeta_fields {fields : List MetaField}
    (fresh : MetaField.freshAll Meta.empty fields = true) (A : List (String × String)) :
    Feeds l fuel NS 0 (readMeta l fuel)
      (.start "Meta" [] :: (fields.flatMap (MetaField.calls l) ++ [.close "Meta"])) A
      (fields.all MetaField.readable) (some (fields.foldl MetaField.set Meta.empty)) := by
  apply Feeds.rounds
  intro rounds
  refine .is_true (fun rest => rfl) ?_
  have enough : fields.length < fuel := by
    have count := tokenCount_fields (l := l) fields
    rw [tokenCount, tokenCount_append] at rounds
    omega
  have body : Feeds l fuel NS 0 (metaLoop l fuel fuel Meta.empty) _ metaNames _ _ :=
    metaLoop_feeds enough fresh
  refine (Feeds.enter (Feeds.bind body (Feeds.close (Feeds.pure A (some _))) ?_)).cast rfl
    (Bool.and_true _) rfl
  intro rest _
  exact follows_closing rfl

theorem readMeta_feeds (m : Option Meta) :
    Feeds l fuel NS 0 (readMeta l fuel) (writeMeta l m) [(NS, "Meta")] (m.all Meta.readable) m := by
  cases m with
  | none => exact .is_false (fun rest h => differs_of_follows h) (.pure _ none)
  | some m =>
    have fields : Feeds l fuel NS 0 (readMeta l fuel) _ [(NS, "Meta")] _ _ :=
      readMeta_fields m.fields_fresh _
    rw [m.fields_calls, m.fields_set, m.fields_readable] at fields
    exact fields

def Item.readable (i : Item) : Bool := i.metaInfo.all Meta.readable

theorem moreData_feeds (moreData : Bool) :
    Feeds l fuel NS 0 (marker l fuel "MoreData") (writeMoreData moreData) [(NS, "MoreData")] true
      moreData :=
  marker_feeds "MoreData" moreData

theorem readItem_feeds (i : Item) (A : List (String × String)) :
    Feeds l fuel NS 0 (readItem l fuel) (writeItem l i) A i.readable i := by
  refine (Feeds.item (Feeds.enter (Feeds.seq (optionalLocation_feeds "Target" i.target)
    (.seq (optionalLocation_feeds "Source" i.source) (.bind (readMeta_feeds i.metaInfo)
      (.seq (readData_feeds i.data) (.seq (moreData_feeds i.moreData)
        (.close (.pure A i)) ?_) ?_) ?_) ?_) ?_))).cast rfl (Bool.and_true _) rfl
  · intro rest _
    exact follows_closing rfl
  · intro rest _
    rw [append_assoc]
    exact follows_skip (start_moreData _) rfl (follows_closing rfl)
  · intro rest _
    simp only [append_assoc]
    exact follows_skip (start_data _ _) rfl
      (follows_skip (start_moreData _) rfl (follows_closing rfl))
  · intro rest _
    simp only [append_assoc]
    exact follows_skip (start_meta _ _) rfl (follows_skip (start_data _ _) rfl
      (follows_skip (start_moreData _) rfl (follows_closing rfl)))
  · intro rest _
    simp only [append_assoc]
    exact follows_skip (start_optionalLocation _ _ _) rfl (follows_skip (start_meta _ _) rfl
      (follows_skip (start_data _ _) rfl (follows_skip (start_moreData _) rfl
        (follows_closing rfl))))

theorem itemsLoop_feeds {items : List Item} {n : Nat} (rounds : items.length < n) :
    Feeds l fuel NS 0 (itemsLoop l fuel n) (writeItems l items) [(NS, "Item")]
      (items.all Item.readable) items := by
  induction items generalizing n with
  | nil =>
    cases n with
    | zero => cases rounds
    | succ => exact .is_false (fun rest h => differs_of_follows h) (.pure _ [])
  | cons i items ih =>
    cases n with
    | zero => cases rounds
    | succ =>
      refine .is_true (fun rest => rfl) ?_
      have later := ih (Nat.lt_of_succ_lt_succ rounds)
      refine (Feeds.bind (readItem_feeds i []) (Feeds.bind later (Feeds.pure _ (i :: items)) ?_)
        (fun _ _ => rfl)).cast ?_ ?_ rfl
      · exact fun rest h => h
      · simp [writeItems]
      · simp

theorem tokenCount_items (items : List Item) : items.length ≤ tokenCount (writeItems l items) := by
  induction items with
  | nil => exact Nat.le_refl 0
  | cons i =>
    rw [writeItems, List.flatMap_cons, tokenCount_append, ← writeItems]
    have one : 1 ≤ tokenCount (writeItem l i) := by
      rw [writeItem]
      simp only [tokenCount]
      omega
    simp only [length_cons]
    omega

theorem readItems_feeds {items : List Item} (nonempty : items ≠ []) :
    Feeds l fuel NS 0 (readItems l fuel) (writeItems l items) [(NS, "Item")]
      (items.all Item.readable) items := by
  apply Feeds.rounds
  intro rounds
  have loop : Feeds l fuel NS 0 (itemsLoop l fuel fuel) _ _ _ items :=
    itemsLoop_feeds (Nat.lt_of_le_of_lt (tokenCount_items items) rounds)
  have filled : items.isEmpty = false := by simp [nonempty]
  have last : Feeds l fuel NS 0 (if items.isEmpty then fail .structural else pure items) []
      [(NS, "Item")] true items := by
    rw [filled]
    exact .pure _ items
  exact (Feeds.bind loop last (fun rest h => h)).cast (by simp) (Bool.and_true _) rfl

theorem typedAlert_feeds {d : Decoders} {kind value : String} {explicitFormat : Bool} {alert : Alert}
    (hkind : blank kind = false)
    (h : typedAlert d { Meta.empty with
      format := if explicitFormat then some "chr" else none, mediaType := some kind } value =
        .ok alert) (A : List (String × String)) :
    Feeds l fuel NS 0 (readLoginStatus l fuel d) (writeTypedAlert l kind value explicitFormat) A true
      alert := by
  let fields : List MetaField := .mediaType kind :: (if explicitFormat then [.format "chr"] else [])
  have read : Feeds l fuel NS 0 (readMeta l fuel) _ [] _ _ :=
    @readMeta_fields l fuel fields (by cases explicitFormat <;> rfl) []
  have good : fields.all MetaField.readable = true := by
    cases explicitFormat
    · simp [fields, hkind]
    · simp only [fields, MetaField.readable, hkind, if_true, List.all_cons, List.all_nil]
      decide
  have value' : fields.foldl MetaField.set Meta.empty = { Meta.empty with
      format := if explicitFormat then some "chr" else none, mediaType := some kind } := by
    cases explicitFormat <;> rfl
  rw [good, value'] at read
  have all : Feeds l fuel NS 0 (readLoginStatus l fuel d) (.item :: .start "Item" [] ::
      ((.start "Meta" [] :: (fields.flatMap (MetaField.calls l) ++ [.close "Meta"])) ++
        (Call.scalar "Data" value l.fieldBytes false ++ [.close "Item"]))) A true alert := by
    refine .item (.enter (.seq read ?_ (fun _ _ => rfl)))
    refine .lift (a := { Meta.empty with
      format := if explicitFormat then some "chr" else none, mediaType := some kind }) ?_ ?_
    · cases explicitFormat <;> rfl
    · exact .seq (.scalar "Data" value l.fieldBytes false []) (.close (.done h))
        (fun _ _ => rfl)
  refine all.cast ?_ rfl rfl
  cases explicitFormat <;> simp [fields, writeTypedAlert, MetaField.calls]

theorem refsLoop_feeds {refs : List String} {n count : Nat} (rounds : refs.length < n)
    (fits : count + refs.length ≤ l.items) :
    Feeds l fuel NS 0 (refsLoop l fuel name n count) (writeRefsOf l name refs) [(NS, name)] true
      refs := by
  induction refs generalizing n count with
  | nil =>
    cases n with
    | zero => cases rounds
    | succ => exact .is_false (fun rest h => differs_of_follows h) (.pure _ [])
  | cons r refs ih =>
    cases n with
    | zero => cases rounds
    | succ n =>
      simp only [length_cons] at rounds fits
      refine .is_true (fun rest => rfl) ?_
      have room : bound (count + 1) l.items = .ok () := bound_eq_ok.mpr (by omega)
      have later := ih (n := n) (Nat.lt_of_succ_lt_succ rounds)
        (by omega : count + 1 + refs.length ≤ l.items)
      refine (Feeds.uncounted (Feeds.lift room (Feeds.seq
        (.scalar name r l.uriBytes false []) (.seq later (.pure _ (r :: refs)) ?_)
          (fun _ _ => rfl)))).cast ?_ rfl rfl
      · exact fun rest h => h
      · simp [writeRefsOf]

theorem tokenCount_refs (name : String) (refs : List String) :
    refs.length ≤ tokenCount (writeRefsOf l name refs) := by
  induction refs with
  | nil => exact Nat.le_refl 0
  | cons r =>
    rw [writeRefsOf, List.flatMap_cons, tokenCount_append, ← writeRefsOf, length_cons]
    have one : 1 ≤ tokenCount (.item :: Call.scalar name r l.uriBytes false) :=
      Nat.le_add_left 1 _
    omega

theorem refs_feeds {refs : List String} (fits : refs.length ≤ l.items) :
    Feeds l fuel NS 0 (Syncml.refs l fuel name) (writeRefsOf l name refs) [(NS, name)] true refs := by
  apply Feeds.rounds
  intro rounds
  exact refsLoop_feeds (Nat.lt_of_le_of_lt (tokenCount_refs name refs) rounds) (by omega)

theorem credential_feeds (c : Option Credential) :
    Feeds l fuel NS 0 (readCredential l fuel) (writeCredential l c) [(NS, "Cred")]
      (c.all (fun c => c.metaInfo.readable)) c := by
  cases c with
  | none => exact .is_false (fun rest h => differs_of_follows h) (.pure _ none)
  | some c =>
    have all : Feeds l fuel NS 0 (readCredential l fuel) (writeCredential l (some c)) [(NS, "Cred")]
        (c.metaInfo.readable && true) (some c) := by
      refine .is_true (fun rest => rfl) ?_
      refine .enter (.bind (readMeta_feeds (some c.metaInfo)) ?_ ?_)
      · refine .lift (a := c.metaInfo) rfl ?_
        exact .seq (.scalar "Data" c.data l.fieldBytes false [])
          (.close (.pure _ (some c))) (fun _ _ => rfl)
      · intro rest _
        rw [append_assoc]
        exact follows_element rfl rfl
    exact all.cast rfl (Bool.and_true _) rfl

theorem optionalLeaf_feeds {max : Nat} {value : Option String}
    (h : value.all (fun v => !blank v) = true) :
    Feeds l fuel NS 0 (Input.optional l fuel META name max)
      (value.toList.flatMap (fun v => metaLeaf name v max)) [(META, name)] true value := by
  cases value with
  | none => exact .is_false (fun rest h => differs_of_follows h) (.pure _ none)
  | some v =>
    refine .is_true (fun rest => rfl) ?_
    have leaf : Feeds l fuel NS 0 (Input.scalar l fuel META name max false) (metaLeaf name v max)
        [] (!blank v) v := .leaf name v [("xmlns", META)] max false []
    have good : (!blank v) = true := h
    rw [good] at leaf
    exact (Feeds.seq leaf (Feeds.pure _ (some v)) (fun _ _ => rfl)).cast (by simp) rfl rfl

theorem optionalScalar_feeds {max : Nat} {value : Option String} :
    Feeds l fuel NS 0 (Input.optional l fuel NS name max)
      (value.toList.flatMap (fun v => Call.scalar name v max false)) [(NS, name)] true value := by
  cases value with
  | none => exact .is_false (fun rest h => differs_of_follows h) (.pure _ none)
  | some v =>
    refine .is_true (fun rest => rfl) ?_
    exact (Feeds.seq (Feeds.scalar name v max false []) (Feeds.pure _ (some v))
      (fun _ _ => rfl)).cast (by simp) rfl rfl

def Challenge.readable (c : Challenge) : Bool := !blank c.mediaType && c.nonce.all (fun v => !blank v)

theorem challenge_feeds {c : Option Challenge} (h : c.all Challenge.readable = true) :
    Feeds l fuel NS 0 (readChallenge l fuel) (writeChallenge l c) [(NS, "Chal")] true c := by
  cases c with
  | none => exact .is_false (fun rest h => differs_of_follows h) (.pure _ none)
  | some c =>
    simp only [Option.all_some, Challenge.readable, Bool.and_eq_true] at h
    have format : Feeds l fuel NS 0 (Input.optional l fuel META "Format" l.identifierBytes) _
        [(META, "Format")] true (some "b64") := optionalLeaf_feeds (by decide)
    have kind : Feeds l fuel NS 0 (Input.scalar l fuel META "Type" l.uriBytes false)
        (metaLeaf "Type" c.mediaType l.uriBytes) [] (!blank c.mediaType) c.mediaType :=
      .leaf "Type" c.mediaType [("xmlns", META)] l.uriBytes false []
    rw [h.1] at kind
    have all : Feeds l fuel NS 0 (readChallenge l fuel) (.start "Chal" [] :: .start "Meta" [] ::
        ((some "b64").toList.flatMap (fun v => metaLeaf "Format" v l.identifierBytes) ++
          (metaLeaf "Type" c.mediaType l.uriBytes ++
            (c.nonce.toList.flatMap (fun v => metaLeaf "NextNonce" v l.identifierBytes) ++
              [.close "Meta", .close "Chal"])))) [(NS, "Chal")] true (some c) := by
      refine .is_true (fun rest => rfl) ?_
      refine .enter (.enter (.seq format ?_ ?_))
      · refine .lift (a := ()) (by decide) ?_
        refine .seq kind (.seq (optionalLeaf_feeds h.2)
          (.close (.close (.pure _ (some c)))) ?_) (fun _ _ => rfl)
        intro rest _
        exact follows_closing rfl
      · intro rest _
        simp only [append_assoc]
        exact follows_element rfl rfl
    exact all.cast (by simp [writeChallenge]) rfl rfl

end RssMdm.WindowsMdm.Syncml
