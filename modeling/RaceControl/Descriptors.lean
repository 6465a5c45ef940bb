import RaceControl.Messages
import RaceControl.Nanopb.StructKinds

namespace RaceControl.Messages

open Nanopb Nanopb.Struct Record

inductive MsgName
  | latLng | kart | track | timestamp | mqttMessage
  deriving DecidableEq

inductive Rule
  | singular | optional | oneof
  deriving DecidableEq

def Rule.htype : Rule → PbType
  | .singular => pbHtypeOptional
  | .optional => pbHtypeOptional
  | .oneof => pbHtypeOneof

/-- The size of the flag or of the selector. -/
def Rule.countSize : Rule → Nat
  | .singular => 0
  | .optional => 1
  | .oneof => 2

inductive FieldType
  | scalar (t : Scalar)
  | message (name : MsgName)

def FieldType.ltype : FieldType → PbType
  | .scalar t => t.ltype
  | .message _ => pbLtypeSubmessage

def FieldType.size (sizes : MsgName → Nat) : FieldType → Nat
  | .scalar t => t.size
  | .message name => sizes name

/-- The macros PB_FI_WIDTH, which PB_BIND with AUTO goes by. -/
def FieldType.width : FieldType → Width
  | .scalar _ => .one
  | .message _ => .two

def FieldType.submsg : FieldType → Option MsgName
  | .scalar _ => none
  | .message name => some name

/-- A line of a generated field list. All fields are static. -/
structure FieldSpec where
  rule : Rule
  type : FieldType
  tag : UInt32

structure FieldList where
  specs : List FieldSpec
  ascending : (specs.map FieldSpec.tag).Pairwise (· < ·)
  words : (specs.map fun spec => spec.type.width.words).sum < 65536

def latLngFieldList : FieldList where
  specs := [⟨.singular, .scalar .double, 1⟩, ⟨.singular, .scalar .double, 2⟩]
  ascending := by decide
  words := by decide

def kartFieldList : FieldList where
  specs :=
    [⟨.singular, .scalar .bool, 1⟩, ⟨.singular, .scalar .int32, 2⟩, ⟨.singular, .scalar .uenum, 3⟩,
     ⟨.singular, .scalar .float, 4⟩, ⟨.singular, .scalar .float, 5⟩, ⟨.optional, .message .latLng, 6⟩]
  ascending := by decide
  words := by decide

def trackFieldList : FieldList where
  specs := [⟨.singular, .scalar .uenum, 1⟩, ⟨.singular, .scalar .uenum, 2⟩]
  ascending := by decide
  words := by decide

def timestampFieldList : FieldList where
  specs := [⟨.singular, .scalar .int64, 1⟩, ⟨.singular, .scalar .int32, 2⟩]
  ascending := by decide
  words := by decide

def mqttMessageFieldList : FieldList where
  specs :=
    [⟨.singular, .scalar .uenum, 1⟩, ⟨.optional, .message .timestamp, 2⟩, ⟨.oneof, .message .kart, 3⟩,
     ⟨.oneof, .message .track, 4⟩]
  ascending := by decide
  words := by decide

def fieldList : MsgName → FieldList
  | .latLng => latLngFieldList
  | .kart => kartFieldList
  | .track => trackFieldList
  | .timestamp => timestampFieldList
  | .mqttMessage => mqttMessageFieldList

section Entries

/-- Where the compiler puts a member, how long it is and where its flag or its
selector lies. -/
structure Member where
  offset : Nat
  size : Nat
  count : Option Nat

def memberType (rule : Rule) (type : FieldType) : PbType := pbAtypeStatic ||| rule.htype ||| type.ltype

def memberInfo (spec : FieldSpec) (m : Member) : FieldInfo where
  tag := spec.tag
  type := memberType spec.rule spec.type
  dataOffset := UInt32.ofNat m.offset
  dataSize := UInt32.ofNat m.size
  sizeOffset := match m.count with
    | none => 0
    | some count => Int32.ofInt (m.offset - count)
  arraySize := 1

/-- The conditions for a member to go into its entry. -/
def memberFits (spec : FieldSpec) (m : Member) : Bool :=
  pbFieldInfoAssert spec.type.width (memberInfo spec m) && spec.tag != 0

/-- The static assertions of PB_BIND. -/
def layoutFits : List FieldSpec → List Member → Bool
  | [], [] => true
  | spec :: specs, m :: members => memberFits spec m && layoutFits specs members
  | _, _ => false

theorem ltype_message (name : MsgName) : (FieldType.message name).ltype = pbLtypeSubmessage := rfl

theorem pbAtype_of_type (rule : Rule) (type : FieldType) : pbAtype (memberType rule type) = pbAtypeStatic := by
  cases type with
  | scalar t => cases rule <;> cases t <;> rfl
  | message name =>
      rw [memberType, ltype_message]
      cases rule <;> rfl

theorem pbLtype_of_type (rule : Rule) (type : FieldType) : pbLtype (memberType rule type) = type.ltype := by
  cases type with
  | scalar t => cases rule <;> cases t <;> rfl
  | message name =>
      rw [memberType, ltype_message]
      cases rule <;> rfl

theorem pbHtype_of_type (rule : Rule) (type : FieldType) : pbHtype (memberType rule type) = rule.htype := by
  cases type with
  | scalar t => cases rule <;> cases t <;> rfl
  | message name =>
      rw [memberType, ltype_message]
      cases rule <;> rfl

theorem isPlain_of_type (rule : Rule) (type : FieldType) : isPlain (memberType rule type) = true := by
  have hrule : (rule.htype == pbHtypeOptional || rule.htype == pbHtypeOneof) = true := by cases rule <;> decide
  rw [isPlain, pbAtype_of_type, pbHtype_of_type, pbLtype_of_type, hrule, beq_self_eq_true, Bool.true_and, Bool.true_and]
  cases type with
  | scalar t => cases t <;> decide
  | message name => exact beq_self_eq_true pbLtypeSubmessage

theorem nested_of_type (rule : Rule) (type : FieldType) :
    type.submsg.isSome = pbLtypeIsSubmsg (memberType rule type) := by
  rw [pbLtypeIsSubmsg, pbLtype_of_type]
  cases type with
  | scalar t => cases t <;> rfl
  | message name => rfl

def memberEntry (spec : FieldSpec) (m : Member) (h : memberFits spec m = true) : Entry MsgName where
  width := spec.type.width
  info := memberInfo spec m
  submsg := spec.type.submsg
  fits := (Bool.and_eq_true_iff.mp h).1
  tag_ne_zero := bne_iff_ne.mp (Bool.and_eq_true_iff.mp h).2
  nested := nested_of_type spec.rule spec.type

def entriesOf : (specs : List FieldSpec) → (members : List Member) → layoutFits specs members = true →
    List (Entry MsgName)
  | spec :: specs, m :: members, h =>
      memberEntry spec m (Bool.and_eq_true_iff.mp h).1 :: entriesOf specs members (Bool.and_eq_true_iff.mp h).2
  | _, _, _ => []

theorem entriesOf_map {α : Type} {f : Entry MsgName → α} {g : FieldSpec → α}
    (hfg : ∀ spec m h, f (memberEntry spec m h) = g spec) (specs : List FieldSpec) (members : List Member)
    (h : layoutFits specs members = true) : (entriesOf specs members h).map f = specs.map g := by
  induction specs generalizing members with
  | nil => cases members <;> rfl
  | cons spec specs ih =>
      cases members with
      | nil => cases h
      | cons m members => rw [entriesOf, List.map_cons, List.map_cons, hfg, ih]

theorem bindable_entries (list : FieldList) (members : List Member) (h : layoutFits list.specs members = true) :
    Bindable (entriesOf list.specs members h) where
  ascending := by
    have htags := entriesOf_map (f := fun e => e.info.tag) (g := FieldSpec.tag) (fun _ _ _ => rfl) list.specs members h
    rw [htags]
    exact list.ascending
  words := by
    have hwords := entriesOf_map (f := fun e => e.width.words) (g := fun spec => spec.type.width.words)
      (fun _ _ _ => rfl) list.specs members h
    rw [hwords]
    exact list.words

theorem exists_of_entry {specs : List FieldSpec} {members : List Member} {P : FieldSpec → Member → Prop}
    (hP : List.Forall₂ P specs members) (h : layoutFits specs members = true) :
    ∀ e ∈ entriesOf specs members h, ∃ spec m hfits, P spec m ∧ e = memberEntry spec m hfits := by
  induction hP with
  | nil => nofun
  | @cons spec m specs members hhead _ ih =>
      intro e he
      rcases List.mem_cons.mp he with rfl | he
      · exact ⟨spec, m, _, hhead, rfl⟩
      · exact ih _ e he

/-- A member lies in its struct as the field list has it, apart from its flag or its
selector. -/
structure Sits (sizes : MsgName → Nat) (size : Nat) (spec : FieldSpec) (m : Member) : Prop where
  small : size < 2 ^ 31
  exact : m.size = spec.type.size sizes
  data : m.offset + m.size ≤ size
  single : spec.rule = .singular → m.count = none ∧ spec.type.submsg = none
  counted : spec.rule ≠ .singular → ∃ count, m.count = some count ∧ count ≠ m.offset ∧
    count + spec.rule.countSize ≤ size

variable {sizes : MsgName → Nat} {size : Nat} {spec : FieldSpec} {m : Member}

theorem word_toNat {n : Nat} (h : n < 2 ^ 31) : (UInt32.ofNat n).toNat = n :=
  UInt32.toNat_ofNat_of_lt' (Nat.lt_trans h (by decide))

theorem sizeOffset_small (hfits : memberFits spec m = true) :
    (memberInfo spec m).sizeOffset.toUInt32.toNat < 2 ^ 4 := by
  have hassert := (Bool.and_eq_true_iff.mp hfits).1
  cases htype : spec.type with
  | scalar t =>
      rw [htype] at hassert
      exact (assert_one hassert).2.2.1
  | message name =>
      rw [htype] at hassert
      exact (assert_two hassert).2.2.1

theorem sizeOffset_toInt (hfits : memberFits spec m = true) :
    0 ≤ (memberInfo spec m).sizeOffset.toInt ∧ (memberInfo spec m).sizeOffset.toInt < 16 := by
  have hsmall := sizeOffset_small hfits
  have hbits : (memberInfo spec m).sizeOffset.toBitVec.toNat = (memberInfo spec m).sizeOffset.toUInt32.toNat := rfl
  have hnat : (memberInfo spec m).sizeOffset.toInt = ((memberInfo spec m).sizeOffset.toUInt32.toNat : Int) :=
    BitVec.toInt_eq_toNat_of_lt (by omega)
  omega

/-- The distance to the flag comes out of the entry as it was put in. -/
theorem sizeOffset_distance (hfits : memberFits spec m = true) {count : Nat} (hcount : m.count = some count)
    (hoffset : m.offset < 2 ^ 31) (hlt : count < 2 ^ 31) :
    (memberInfo spec m).sizeOffset.toInt = m.offset - count ∧ count ≤ m.offset := by
  have hrange := sizeOffset_toInt hfits
  have hvalue : (memberInfo spec m).sizeOffset = Int32.ofInt (m.offset - count) := by rw [memberInfo, hcount]
  have hint : (memberInfo spec m).sizeOffset.toInt = m.offset - count := by
    rw [hvalue]
    exact Int32.toInt_ofInt_of_le (by omega) (by omega)
  omega

theorem kind_member (hfits : memberFits spec m = true) (h : Sits sizes size spec m) :
    Kind spec.rule.htype spec.type.ltype m.offset (spec.type.size sizes) spec.type.submsg
      (Struct.Entry.values (memberEntry spec m hfits)) where
  atype := pbAtype_of_type spec.rule spec.type
  htype := pbHtype_of_type spec.rule spec.type
  ltype := pbLtype_of_type spec.rule spec.type
  pData := by
    have hsmall := h.small
    have hdata := h.data
    rw [pData_values (pbAtype_of_type spec.rule spec.type)]
    have hoffset : (memberEntry spec m hfits).info.dataOffset.toNat = m.offset := word_toNat (by omega)
    rw [hoffset]
  dataSize := by
    have hsmall := h.small
    have hdata := h.data
    rw [dataSize_values, ← h.exact]
    exact word_toNat (by omega)
  submsgDesc := by
    have hdesc : (Struct.Entry.values (memberEntry spec m hfits)).submsgDesc =
        if pbLtypeIsSubmsg (memberType spec.rule spec.type) then spec.type.submsg else none := rfl
    rw [hdesc, ← nested_of_type]
    cases spec.type.submsg <;> rfl

theorem not_repeated (rule : Rule) (type : FieldType) : pbHtype (memberType rule type) ≠ pbHtypeRepeated := by
  rw [pbHtype_of_type]
  cases rule <;> decide

theorem pSize_single (hfits : memberFits spec m = true) (hcount : m.count = none) :
    (Struct.Entry.values (memberEntry spec m hfits)).pSize = .null := by
  have hzero : (memberInfo spec m).sizeOffset = 0 := by rw [memberInfo, hcount]
  exact pSize_null (not_repeated spec.rule spec.type) hzero

theorem sizeOffset_ne {count : Nat} (hfits : memberFits spec m = true) (hcount : m.count = some count)
    (hoffset : m.offset < 2 ^ 31) (hlt : count < 2 ^ 31) (hne : count ≠ m.offset) :
    (memberInfo spec m).sizeOffset ≠ 0 := by
  obtain ⟨hdistance, -⟩ := sizeOffset_distance hfits hcount hoffset hlt
  intro hzero
  rw [hzero] at hdistance
  have hzero' : (0 : Int32).toInt = 0 := rfl
  omega

theorem pSize_counted (hfits : memberFits spec m = true) {count : Nat} (hcount : m.count = some count)
    (hoffset : m.offset < 2 ^ 31) (hlt : count < 2 ^ 31) (hne : count ≠ m.offset) :
    (Struct.Entry.values (memberEntry spec m hfits)).pSize = .member count := by
  obtain ⟨hdistance, hle⟩ := sizeOffset_distance hfits hcount hoffset hlt
  have hrange := sizeOffset_toInt hfits
  have hdata : (memberEntry spec m hfits).info.dataOffset.toNat = m.offset := word_toNat hoffset
  have hinfo : (memberEntry spec m hfits).info.sizeOffset.toInt = m.offset - count := hdistance
  rw [pSize_member ⟨by omega, by omega⟩ (sizeOffset_ne hfits hcount hoffset hlt hne) (by omega), hdata, hinfo]
  congr 1
  omega

theorem room_of_ltype (sizes : MsgName → Nat) (type : FieldType) :
    (type.ltype = pbLtypeBool → 1 ≤ type.size sizes) ∧ (type.ltype = pbLtypeFixed32 → 4 ≤ type.size sizes) ∧
      (type.ltype = pbLtypeFixed64 → 8 ≤ type.size sizes) := by
  have hbool : pbLtypeSubmessage ≠ pbLtypeBool := by decide
  have hfixed32 : pbLtypeSubmessage ≠ pbLtypeFixed32 := by decide
  have hfixed64 : pbLtypeSubmessage ≠ pbLtypeFixed64 := by decide
  cases type with
  | scalar t =>
      rw [FieldType.ltype, FieldType.size]
      cases t <;> decide
  | message name =>
      exact ⟨fun h => absurd h hbool, fun h => absurd h hfixed32, fun h => absurd h hfixed64⟩

theorem fits_member (hfits : memberFits spec m = true) (h : Sits sizes size spec m) :
    Fits sizes size (memberEntry spec m hfits) := by
  have hsmall := h.small
  have hdata := h.data
  have hoffset : (memberEntry spec m hfits).info.dataOffset.toNat = m.offset := word_toNat (by omega)
  have hsize : (memberEntry spec m hfits).info.dataSize.toNat = m.size := word_toNat (by omega)
  have hltype : pbLtype (memberEntry spec m hfits).info.type = spec.type.ltype := pbLtype_of_type _ _
  have hhtype : pbHtype (memberEntry spec m hfits).info.type = spec.rule.htype := pbHtype_of_type _ _
  have hinfo : (memberEntry spec m hfits).info.sizeOffset = (memberInfo spec m).sizeOffset := rfl
  have hrange := sizeOffset_toInt hfits
  obtain ⟨hbool, hfixed32, hfixed64⟩ := room_of_ltype sizes spec.type
  have hcounted : spec.rule ≠ .singular → (memberInfo spec m).sizeOffset ≠ 0 ∧
      (memberInfo spec m).sizeOffset.toInt ≤ m.offset ∧
      m.offset - (memberInfo spec m).sizeOffset.toInt + spec.rule.countSize ≤ size := by
    intro hrule
    obtain ⟨count, hcount, hne, hend⟩ := h.counted hrule
    obtain ⟨hdistance, hle⟩ := sizeOffset_distance hfits hcount (by omega) (by omega)
    exact ⟨sizeOffset_ne hfits hcount (by omega) (by omega) hne, by omega, by omega⟩
  exact
    { data := by omega
      bool := fun hl => hsize ▸ h.exact ▸ hbool (hltype ▸ hl)
      fixed32 := fun hl => hsize ▸ h.exact ▸ hfixed32 (hltype ▸ hl)
      fixed64 := fun hl => hsize ▸ h.exact ▸ hfixed64 (hltype ▸ hl)
      submsg := fun sub hsub => by
        have hsub' : spec.type.submsg = some sub := hsub
        rw [hsize, h.exact]
        cases htype : spec.type with
        | scalar t =>
            rw [htype] at hsub'
            cases hsub'
        | message name =>
            rw [htype] at hsub'
            cases hsub'
            exact Nat.le_refl _
      flagged := fun hsome => by
        apply (hcounted ?_).1
        intro hrule
        have hnone : (memberEntry spec m hfits).submsg = none := (h.single hrule).2
        rw [hnone] at hsome
        cases hsome
      near := by
        rw [hinfo]
        omega
      flag := fun hoptional => by
        rw [hhtype] at hoptional
        rw [hinfo, hoffset]
        cases hrule : spec.rule with
        | singular => exact .inl (by rw [memberInfo, (h.single hrule).1])
        | optional =>
            have hflag := (hcounted (hrule ▸ nofun)).2
            rw [hrule] at hflag
            exact .inr hflag
        | oneof =>
            rw [hrule] at hoptional
            exact absurd hoptional (by decide)
      which := fun honeof => by
        rw [hhtype] at honeof
        rw [hinfo, hoffset]
        cases hrule : spec.rule with
        | singular | optional =>
            rw [hrule] at honeof
            exact absurd honeof (by decide)
        | oneof =>
            have hwhich := hcounted (hrule ▸ nofun)
            rw [hrule] at hwhich
            exact hwhich }

section Bind

variable {σ τ : Type} {schema : Schema MsgName} {depth : Nat} {view : Mem → Int → σ}

def bindFields : (specs : List FieldSpec) → (members : List Member) → (fields : List (PbField σ)) →
    layoutFits specs members = true → fields.map PbField.tag = specs.map FieldSpec.tag → List (BoundField σ MsgName)
  | spec :: specs, m :: members, field :: fields, hfits, htags =>
      ⟨memberEntry spec m (Bool.and_eq_true_iff.mp hfits).1, field, (List.cons.inj htags).1⟩ ::
        bindFields specs members fields (Bool.and_eq_true_iff.mp hfits).2 (List.cons.inj htags).2
  | _, _, _, _, _ => []

theorem bindFields_map (specs : List FieldSpec) (members : List Member) (fields : List (PbField σ))
    (hfits : layoutFits specs members = true) (htags : fields.map PbField.tag = specs.map FieldSpec.tag) :
    (bindFields specs members fields hfits htags).map BoundField.entry = entriesOf specs members hfits ∧
      (bindFields specs members fields hfits htags).map BoundField.field = fields := by
  induction specs generalizing members fields with
  | nil =>
      obtain rfl : fields = [] := List.map_eq_nil_iff.mp htags
      cases members with
      | nil => exact ⟨rfl, rfl⟩
      | cons m members => cases hfits
  | cons spec specs ih =>
      cases members with
      | nil => cases hfits
      | cons m members =>
          cases fields with
          | nil => cases htags
          | cons field fields =>
              obtain ⟨hentries, hfields⟩ := ih members fields (Bool.and_eq_true_iff.mp hfits).2 (List.cons.inj htags).2
              exact ⟨congrArg (_ :: ·) hentries, congrArg (field :: ·) hfields⟩

/-- Every member of a struct is handled as its field, wherever it sits. -/
inductive HandlesAll (schema : Schema MsgName) (depth : Nat) (view : Mem → Int → σ) (size : Nat) :
    List FieldSpec → List Member → List (PbField σ) → Prop
  | nil : HandlesAll schema depth view size [] [] []
  | cons {spec : FieldSpec} {m : Member} {field : PbField σ} {specs : List FieldSpec} {members : List Member}
      {fields : List (PbField σ)}
      (head : ∀ hfits, Sits schema.size size spec m →
        Handles schema depth view (Struct.Entry.values (memberEntry spec m hfits)) field)
      (tail : HandlesAll schema depth view size specs members fields) :
      HandlesAll schema depth view size (spec :: specs) (m :: members) (field :: fields)

theorem HandlesAll.bound {specs : List FieldSpec} {members : List Member} {fields : List (PbField σ)}
    (h : HandlesAll schema depth view size specs members fields)
    (hsits : List.Forall₂ (Sits schema.size size) specs members) (hfits : layoutFits specs members = true)
    (htags : fields.map PbField.tag = specs.map FieldSpec.tag) :
    ∀ bound ∈ bindFields specs members fields hfits htags,
      Handles schema depth view (Struct.Entry.values bound.entry) bound.field := by
  induction h with
  | nil => nofun
  | cons head _ ih =>
      obtain ⟨hhead, htail⟩ := List.forall₂_cons.mp hsits
      intro bound hbound
      rcases List.mem_cons.mp hbound with rfl | hbound
      · exact head (Bool.and_eq_true_iff.mp hfits).1 hhead
      · exact ih htail _ _ bound hbound

theorem tag_values (hfits : memberFits spec m = true) :
    (Struct.Entry.values (memberEntry spec m hfits)).tag.toUInt32 = spec.tag :=
  toUInt32_tag (memberEntry spec m hfits)

theorem handles_scalar {t : Scalar} {tag : UInt32} {get : σ → t.Value} {set : t.Value → σ → σ}
    (hfits : memberFits ⟨.singular, .scalar t, tag⟩ m = true) (h : Sits sizes size ⟨.singular, .scalar t, tag⟩ m)
    (hpiece : Piece view (Span m.offset t.size) (fun mem a => t.load mem (a + m.offset)) get set) :
    Handles schema depth view (Struct.Entry.values (memberEntry _ m hfits)) (singular tag t get set) :=
  handles_singular (tag_values hfits) (kind_member hfits h) (pSize_single hfits (h.single rfl).1) hpiece

variable {sub : MsgName} {viewSub : Mem → Int → τ} {zero : τ} {fields : List (PbField τ)} {nesting : Nat} {tag : UInt32}

theorem handles_flagged {has : σ → Bool} {setHas : Bool → σ → σ} {get : σ → τ} {set : τ → σ → σ} {hasAt : Nat}
    (hsub : Realizes schema nesting sub viewSub zero fields) (hdepth : nesting ≤ depth)
    (hfits : memberFits ⟨.optional, .message sub, tag⟩ m = true)
    (h : Sits schema.size size ⟨.optional, .message sub, tag⟩ m) (hcount : m.count = some hasAt)
    (hhas : Piece view (Span hasAt 1) (fun mem a => safeReadBool mem (a + hasAt)) has setHas)
    (hpiece : Piece view (Span m.offset (schema.size sub)) (fun mem a => viewSub mem (a + m.offset)) get set)
    (hget : ∀ b x, get (setHas b x) = get x) :
    Handles schema depth view (Struct.Entry.values (memberEntry _ m hfits))
      (optional tag fields has setHas get set) := by
  obtain ⟨count, hcount', hne, hend⟩ := h.counted nofun
  obtain rfl : hasAt = count := Option.some.inj (hcount.symm.trans hcount')
  have hsmall := h.small
  have hdata := h.data
  exact handles_optional hsub hdepth (tag_values hfits) (kind_member hfits h)
    (pSize_counted hfits hcount (by omega) (by omega) hne) hhas hpiece hget

theorem handles_selected {clear : σ → σ} {select : σ → Option τ} {store : τ → σ → σ} {whichAt : Nat}
    (hsub : Realizes schema nesting sub viewSub zero fields) (hdepth : nesting ≤ depth)
    (hfits : memberFits ⟨.oneof, .message sub, tag⟩ m = true) (h : Sits schema.size size ⟨.oneof, .message sub, tag⟩ m)
    (hcount : m.count = some whichAt)
    (hchoice : Choice view (fun x => Span whichAt 2 x ∨ Span m.offset (schema.size sub) x) (selector whichAt) tag.toNat
      (fun mem a => viewSub mem (a + m.offset)) clear select store)
    (hapart : whichAt + 2 ≤ m.offset ∨ m.offset + schema.size sub ≤ whichAt) :
    Handles schema depth view (Struct.Entry.values (memberEntry _ m hfits))
      (oneof tag fields zero clear select store) := by
  obtain ⟨count, hcount', hne, hend⟩ := h.counted nofun
  obtain rfl : whichAt = count := Option.some.inj (hcount.symm.trans hcount')
  have hsmall := h.small
  have hdata := h.data
  have htag := congrArg UInt32.toNat (tag_values hfits)
  rw [UInt16.toNat_toUInt32] at htag
  exact handles_oneof hsub hdepth (tag_values hfits) (kind_member hfits h)
    (pSize_counted hfits hcount (by omega) (by omega) hne) (htag ▸ hchoice) hapart

end Bind

end Entries

end RaceControl.Messages
