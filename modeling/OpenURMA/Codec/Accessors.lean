import OpenURMA.Codec.Independence

/-!
# Independence of the flit accessors

The accessors of `ub_meta` and `ub_ext` as pairs of a getter and a setter.  The fields of
`ub_meta` do not overlap, except `odr` with its parts.  The UMDK provider has a `lane_set` of its
own and repeats the positions of the fields.
-/

namespace OpenURMA

open Library BitField List BitVec Nat

structure Accessor where
  {Value : Type}
  [value : FieldValue Value]
  get : Flit → Value
  set : Value → Flit → Flit
  width : ℕ

attribute [instance] Accessor.value

namespace Accessor

structure Lawful (a : Accessor) : Prop where
  get_set : ∀ v f,
    (FieldValue.toWord (a.get (a.set v f))).toNat = (FieldValue.toWord v).toNat % 2 ^ a.width
  sop : ∀ v f, (a.set v f).sop = f.sop
  eop : ∀ v f, (a.set v f).eop = f.eop
  set_set : ∀ v w f, a.set w (a.set v f) = a.set w f

def Independent (a b : Accessor) : Prop := ∀ v f, b.get (a.set v f) = b.get f

def AllLawful (accessors : List Accessor) : Prop :=
  (∀ a ∈ accessors, a.Lawful) ∧
    accessors.Pairwise fun a b => a.Independent b ∧ b.Independent a

end Accessor

theorem toNat_and_mask_eq {n width : ℕ} (v : BitVec n) :
    (v &&& mask n width).toNat = v.toNat % 2 ^ width := by
  by_cases narrow : width < n
  · exact toNat_and_mask narrow v
  · have bound : v.toNat < 2 ^ width :=
      v.isLt.trans_le (Nat.pow_le_pow_right (by omega) (by omega))
    rw [and_mask_of_le (by omega), mod_eq_of_lt bound]

theorem Slot.set_set (slot : Slot) (v w : U64) (f : Flit) :
    slot.set w (slot.set v f) = slot.set w f := by
  have word : ∀ x : U64, BitField.set slot.lo slot.width w (BitField.set slot.lo slot.width v x) =
      BitField.set slot.lo slot.width w x := by
    intro x
    apply eq_of_getLsbD_eq
    intro index inside
    rw [getLsbD_set slot.fits, getLsbD_set slot.fits, getLsbD_set slot.fits]
    grind
  have lanes : ∀ (lane : Fin 4) (x y : U64), (f.set lane x).set lane y = f.set lane y := by
    intro lane x y
    fin_cases lane <;> rfl
  rw [set, set, set, Flit.laneSet, Flit.laneSet, Flit.laneSet, Flit.get_set_same, word, lanes]

/-- A field whose getter loses nothing of what is stored. -/
structure AnyField where
  {Value : Type}
  [value : FieldValue Value]
  field : Field Value
  faithful : ∀ f, FieldValue.toWord (field.get f) = field.toSlot.get f

namespace AnyField

attribute [instance] AnyField.value

def word {n : ℕ} (field : Field (BitVec n)) (wide : field.width ≤ n := by decide) : AnyField :=
  ⟨field, field.toWord_get wide⟩

def flag (field : Field Bool) (single : field.width = 1 := by decide) : AnyField :=
  ⟨field, field.toWord_get_bool single⟩

def accessor (a : AnyField) : Accessor := ⟨a.field.get, a.field.set, a.field.width⟩

theorem lawful_accessor (a : AnyField) : a.accessor.Lawful where
  get_set v f := by
    have stored : FieldValue.toWord (a.field.get (a.field.set v f)) =
        FieldValue.toWord v &&& mask 64 a.field.width := by
      rw [a.faithful]
      exact Slot.get_set_same ..
    exact (congrArg BitVec.toNat stored).trans (toNat_and_mask_eq _)
  sop v f := Field.sop_set ..
  eop v f := Field.eop_set ..
  set_set v w f := Slot.set_set ..

theorem allLawful {fields : List AnyField}
    (disjoint : (fields.map (·.field.toSlot)).Pairwise Slot.Disjoint) :
    Accessor.AllLawful (fields.map accessor) := by
  constructor
  · simp only [forall_mem_map]
    exact fun a _ => a.lawful_accessor
  · rw [pairwise_map] at disjoint ⊢
    exact disjoint.imp fun apart =>
      ⟨Field.get_set_disjoint apart, Field.get_set_disjoint apart.symm⟩

end AnyField

open AnyField (word flag)

namespace UbMeta

/-- All fields, with the given ones in the place of `odr` and its parts. -/
def fields (order : List AnyField) : List AnyField :=
  [word dcna, word scna, word lbf, word sl, word nthNlp, flag valid,
    word tpOpcode, word tpVer, word padding, word rtphNlp, word srcTpn, word dstTpn,
    word psn, word tpmsn, word rspst, word rspinfo, flag aFlag, flag fFlag, word svcMode,
    flag isResponse, flag lastPkt,
    word taOpcode, word taVer, word eeBits, flag tvEn, flag poison, flag targetHint, flag udFlag,
    word iniTassn] ++ order ++
  [flag fence, flag mtEn, flag fce, flag retry, flag alloc, word iniRcType, flag eBit, word iniRcId]

def accessors : List Accessor := (fields [word odr]).map AnyField.accessor

def accessorsOfParts : List Accessor :=
  (fields [word odrExec, flag odrCompl]).map AnyField.accessor

end UbMeta

namespace UbExt

def accessors : List Accessor :=
  [⟨address, setAddress, 64⟩, ⟨tokenId, setTokenId, 20⟩, ⟨length, setLength, 32⟩,
    ⟨tokenValue, setTokenValue, 32⟩, ⟨mtHint, setMtHint, 8⟩, ⟨mtTcType, setMtTcType, 2⟩,
    ⟨mtTcId, setMtTcId, 20⟩, ⟨opData, setOpData, 64⟩]

def fields : List AnyField :=
  [word addressField, word tokenIdField, word lengthField, word tokenValueField,
    word mtHintField, word mtTcTypeField, word mtTcIdField, word opDataField]

theorem accessor_eq {a : AnyField} {get : Flit → a.Value} {set : a.Value → Flit → Flit}
    (getter : ∀ f, get f = a.field.get f) (setter : ∀ v f, set v f = a.field.set v f) :
    (⟨get, set, a.field.width⟩ : Accessor) = a.accessor := by
  rw [AnyField.accessor, funext getter, funext₂ setter]

theorem accessors_eq : accessors = fields.map AnyField.accessor := by
  simp only [fields, map_cons, map_nil,
    ← accessor_eq (a := word addressField) address_eq setAddress_eq,
    ← accessor_eq (a := word tokenIdField) tokenId_eq setTokenId_eq,
    ← accessor_eq (a := word lengthField) length_eq setLength_eq,
    ← accessor_eq (a := word tokenValueField) tokenValue_eq setTokenValue_eq,
    ← accessor_eq (a := word mtHintField) mtHint_eq setMtHint_eq,
    ← accessor_eq (a := word mtTcTypeField) mtTcType_eq setMtTcType_eq,
    ← accessor_eq (a := word mtTcIdField) mtTcId_eq setMtTcId_eq,
    ← accessor_eq (a := word opDataField) opData_eq setOpData_eq]
  rfl

end UbExt

namespace EthEncap

/-- The metadata flit of `ou_build_wr_flits` by the calls of `lane_set` written there. -/
def ouMetaLanes (dcna : U32) (taop : U8) (tassn : U32) : Flit :=
  ({} : Flit) |>.laneSet 0 0 24 (dcna.setWidth 64) |>.laneSet 0 60 3 0x2 |>.laneSet 0 63 1 1
    |>.laneSet 2 58 2 0 |>.laneSet 2 61 1 1
    |>.laneSet 3 0 8 (taop.setWidth 64) |>.laneSet 3 12 1 1 |>.laneSet 3 16 16 (tassn.setWidth 64)
    |>.laneSet 3 32 2 0 |>.laneSet 3 43 20 7 |>.setSop true

variable {dcna tassn tokenId len : U32} {taop : U8} {remoteVa : U64}

theorem ouMetaLanes_eq : ouMetaLanes dcna taop tassn = ouMeta dcna taop tassn := by
  have low : ∀ x : U64, set 16 16 (tassn.setWidth 64) x =
      set 16 16 ((tassn.setWidth 16).setWidth 64) x := by
    intro x
    apply eq_of_getLsbD_eq
    intro index inside
    rw [getLsbD_set (by decide), getLsbD_set (by decide), getLsbD_setWidth,
      getLsbD_setWidth, getLsbD_setWidth]
    grind
  exact congrArg (fun x => (Write.apply ((ouMetaWrites dcna taop tassn).drop 8)
    (Flit.set _ 3 x)).setSop true) (low _)

theorem toNat_get_ouMetaLanes {n : ℕ} {field : Field (BitVec n)} {v : BitVec n}
    (member : field.write v ∈ ouMetaWrites dcna taop tassn) :
    (field.get (ouMetaLanes dcna taop tassn)).toNat = v.toNat % 2 ^ field.width := by
  rw [ouMetaLanes_eq, ouMeta, Field.get_setSop,
    Write.field_get_apply (separate_ouMetaWrites ..) member, toNat_and_mask_eq]

theorem tokenId_ouExt (remoteVa : U64) (tokenId len : U32) :
    (UbExt.tokenId (ouExt remoteVa tokenId len)).toNat = tokenId.toNat % 2 ^ 20 := by
  have low : UbExt.tokenId (ouExt remoteVa tokenId len) = tokenId &&& mask 32 20 := by
    rw [UbExt.tokenId_eq]
    apply eq_of_getLsbD_eq
    intro index inside
    rw [Field.getLsbD_get, getLsbD_and, getLsbD_mask]
    have lane : (ouExt remoteVa tokenId len).get UbExt.tokenIdField.lane =
      tokenId.setWidth 64 ||| (len.setWidth 64 <<< 32) := rfl
    rw [lane, getLsbD_or, getLsbD_setWidth, getLsbD_shiftLeft]
    simp only [UbExt.tokenIdField]
    grind
  rw [low, toNat_and_mask (by omega)]

/-- The flits decode to the arguments. -/
structure Decodes (dcna : U32) (taop : U8) (tassn : U32) (remoteVa : U64) (tokenId len : U32) :
    Prop where
  node : (UbMeta.dcna.get (ouMetaLanes dcna taop tassn)).toNat = dcna.toNat
  opcode : (UbMeta.taOpcode.get (ouMetaLanes dcna taop tassn)).toNat = taop.toNat
  number : (UbMeta.iniTassn.get (ouMetaLanes dcna taop tassn)).toNat = tassn.toNat
  address : UbExt.address (ouExt remoteVa tokenId len) = remoteVa
  token : (UbExt.tokenId (ouExt remoteVa tokenId len)).toNat = tokenId.toNat
  length : UbExt.length (ouExt remoteVa tokenId len) = len

theorem decodes_iff : Decodes dcna taop tassn remoteVa tokenId len ↔
    dcna.toNat < 2 ^ 24 ∧ tassn.toNat < 2 ^ 16 ∧ tokenId.toNat < 2 ^ 20 := by
  have node : (UbMeta.dcna.get (ouMetaLanes dcna taop tassn)).toNat = dcna.toNat % 2 ^ 24 :=
    toNat_get_ouMetaLanes (mem_of_getElem? (i := 0) rfl)
  have number : (UbMeta.iniTassn.get (ouMetaLanes dcna taop tassn)).toNat =
      tassn.toNat % 2 ^ 16 := by
    rw [toNat_get_ouMetaLanes (mem_of_getElem? (i := 7) rfl), toNat_setWidth]
    exact mod_mod ..
  have token := tokenId_ouExt remoteVa tokenId len
  constructor
  · intro decodes
    exact ⟨(mod_eq_iff_lt (by decide)).mp (node.symm.trans decodes.node),
      (mod_eq_iff_lt (by decide)).mp (number.symm.trans decodes.number),
      (mod_eq_iff_lt (by decide)).mp (token.symm.trans decodes.token)⟩
  · rintro ⟨nodeFits, numberFits, tokenFits⟩
    have opcode : (UbMeta.taOpcode.get (ouMetaLanes dcna taop tassn)).toNat = taop.toNat := by
      rw [ouMetaLanes_eq, taOpcode_ouMeta]
    exact ⟨node.trans (mod_eq_of_lt nodeFits), opcode,
      number.trans (mod_eq_of_lt numberFits), rfl, token.trans (mod_eq_of_lt tokenFits),
      length_ouExt ..⟩

/-- What `ou_build_wr_flits` sets whatever its arguments are. -/
structure Constants (m : Flit) : Prop where
  mode : UbMeta.svcMode.get m = svcRoi
  last : UbMeta.lastPkt.get m = true
  value : UbMeta.tvEn.get m = true
  context : UbMeta.iniRcId.get m = 7

theorem constants_ouMetaLanes : Constants (ouMetaLanes dcna taop tassn) := by
  have fits : ∀ {α : Type} [FieldValue α] {field : Field α} {v : α},
      field.write v ∈ ouMetaWrites dcna taop tassn →
      FieldValue.ofWord (FieldValue.toWord v &&& mask 64 field.width) = v →
      field.get (ouMetaLanes dcna taop tassn) = v := by
    intro α _ field v member fits
    rw [ouMetaLanes_eq, ouMeta, Field.get_setSop]
    exact Write.field_get_apply_of_fits (separate_ouMetaWrites ..) member fits _
  exact ⟨fits (mem_of_getElem? (i := 3) rfl) (by decide),
    fits (mem_of_getElem? (i := 4) rfl) (by decide),
    fits (mem_of_getElem? (i := 6) rfl) (by decide),
    fits (mem_of_getElem? (i := 9) rfl) (by decide)⟩

end EthEncap

open EthEncap Accessor

/-- Fields are independent, and the provider's flits decode to the arguments exactly if these fit
into their fields. -/
theorem accessors_independent :
    AllLawful UbMeta.accessors ∧ AllLawful UbMeta.accessorsOfParts ∧ AllLawful UbExt.accessors ∧
      ∀ (dcna : U32) (taop : U8) (tassn : U32) (remoteVa : U64) (tokenId len : U32),
        Constants (ouMetaLanes dcna taop tassn) ∧ (Decodes dcna taop tassn remoteVa tokenId len ↔
            dcna.toNat < 2 ^ 24 ∧ tassn.toNat < 2 ^ 16 ∧ tokenId.toNat < 2 ^ 20) := by
  refine ⟨AnyField.allLawful (by decide), AnyField.allLawful (by decide), ?_, ?_⟩
  · rw [UbExt.accessors_eq]
    exact AnyField.allLawful (by decide)
  · intro dcna taop tassn remoteVa tokenId len
    exact ⟨constants_ouMetaLanes, decodes_iff⟩

/-- A destination address of 25 bits. -/
theorem not_decodes_wideCna : ¬Decodes 0x1000000 taopWrite 0 0x1000 5 8 := by
  rw [decodes_iff]
  decide

end OpenURMA
