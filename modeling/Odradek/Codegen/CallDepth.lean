import Odradek.Codegen.EmittedCode

/-!
The depth of calls changes nothing but where a run gets stuck: a run of the
emitted code that does not use up its depth is the same at every greater one.
-/

namespace Odradek.Codegen

open Library Library.Decoder Protocol

section Decode

variable {α β : Type} {d d' e : Decode α} {f f' : α → Decode β}

/-- `d` does as `d'`, or gives up. -/
def GivesUp (d d' : Decode α) : Prop := ∀ s, d s = d' s ∨ ∃ t, d s = .error .panic t

theorem GivesUp.refl (d : Decode α) : GivesUp d d := fun _ => .inl rfl

theorem GivesUp.stuck (d : Decode α) : GivesUp stuck d := fun s => .inr ⟨s, rfl⟩

theorem GivesUp.bind (h : GivesUp d d') (hf : ∀ a, GivesUp (f a) (f' a)) :
    GivesUp (d >>= f) (d' >>= f') := by
  intro s
  rw [bind_apply, bind_apply]
  obtain heq | ⟨t, ht⟩ := h s
  · rw [← heq]
    cases d s with
    | ok a t => exact hf a t
    | error e t => exact .inl rfl
  · rw [ht]
    exact .inr ⟨t, rfl⟩

theorem GivesUp.bind_left (h : GivesUp d d') : GivesUp (d >>= f) (d' >>= f) :=
  h.bind fun _ => .refl _

theorem GivesUp.bind_right (hf : ∀ a, GivesUp (f a) (f' a)) : GivesUp (d >>= f) (d >>= f') :=
  (GivesUp.refl d).bind hf

theorem GivesUp.within (bytes : Bytes) (h : GivesUp d d') :
    GivesUp (within bytes d) (within bytes d') := by
  intro s
  unfold Decoder.within
  obtain heq | ⟨t, ht⟩ := h { s with bytes }
  · rw [heq]
    exact .inl rfl
  · rw [ht]
    exact .inr ⟨_, rfl⟩

theorem GivesUp.progressing (h : GivesUp d d') : GivesUp (progressing d) (progressing d') :=
  .bind_right fun _ => h.bind_left

theorem GivesUp.getItems (elem count : Nat) (h : GivesUp d d') (read : Vec α) :
    GivesUp (getItems elem d count read) (getItems elem d' count read) := by
  induction count generalizing read with
  | zero => exact .refl _
  | succ count ih => exact h.bind fun _ => .bind_right fun _ => ih _

theorem GivesUp.eq_of_no_panic (h : GivesUp d d') {s : Reader Ledger}
    (hs : ∀ t, d s ≠ .error .panic t) : d' s = d s := by
  obtain heq | ⟨t, ht⟩ := h s
  · exact heq.symm
  · exact absurd ht (hs t)

variable {holds : Text → Bool} {version : Int16} {sizeOf : SizeOf}
  {call call' : String → Decode Value} (hcall : ∀ name, GivesUp (call name) (call' name))

include hcall

theorem ElementCode.decode_givesUp (elem : ElementCode Get) :
    GivesUp (elem.decode holds call) (elem.decode holds call') := by
  cases elem with
  | call sw => exact .refl _
  | struct name => exact (hcall name).progressing

/-- A deeper call does the same, or gives up where the shallower did. -/
theorem DecodeCode.run_givesUp (code : DecodeCode) :
    GivesUp (code.run holds version sizeOf call) (code.run holds version sizeOf call') := by
  cases code with
  | get sw => exact .refl _
  | struct name => exact hcall name
  | nullableStruct test name =>
      refine .bind_right fun marker => ?_
      split
      · exact .refl _
      · exact (hcall name).bind_left
  | notNull sw => exact .refl _
  | nullable test sw => exact .refl _
  | items len null elemType elem =>
      refine .bind_right fun count => ?_
      cases count with
      | some count =>
          exact .bind_left (.bind_left (.getItems _ count (elem.decode_givesUp hcall) _))
      | none => exact .refl _

theorem decodeWire_givesUp (codes : List (Emitted DecodeCode)) (dflts : List Value) :
    GivesUp (decodeWire holds version sizeOf call codes dflts)
      (decodeWire holds version sizeOf call' codes dflts) := by
  induction codes generalizing dflts with
  | nil => exact .refl _
  | cons code codes ih =>
      cases dflts with
      | nil => exact .refl _
      | cons dflt dflts =>
          refine GivesUp.bind ?_ fun v => (ih dflts).bind_left
          unfold assigned
          split
          · exact DecodeCode.run_givesUp hcall _
          · exact .refl _

/-- Both find the same place, or none. -/
theorem branchFor_givesUp (tag : Nat) (codes : List TaggedDecode) (place : Nat) :
    Option.Rel (fun a b => a.1 = b.1 ∧ GivesUp a.2 b.2)
      (branchFor holds version sizeOf call tag codes place)
      (branchFor holds version sizeOf call' tag codes place) := by
  induction codes generalizing place with
  | nil => exact .none
  | cons code codes ih =>
      rw [branchFor, branchFor]
      split
      · exact .some ⟨rfl, code.value.run_givesUp hcall⟩
      · exact ih (place + 1)

omit hcall in
theorem takeAllTagged_givesUp {branch branch' : Nat → Option (Nat × Decode Value)}
    (h : ∀ tag, Option.Rel (fun a b => a.1 = b.1 ∧ GivesUp a.2 b.2) (branch tag) (branch' tag))
    (raws : List RawTaggedField) (tagged : List Value) (unknown : Vec RawTaggedField) :
    GivesUp (takeAllTagged branch raws tagged unknown)
      (takeAllTagged branch' raws tagged unknown) := by
  induction raws generalizing tagged unknown with
  | nil => exact .refl _
  | cons raw raws ih =>
      refine GivesUp.bind ?_ fun step => ih step.1 step.2
      have hbranch := h raw.tag
      unfold takeTagged
      cases hone : branch raw.tag with
      | none =>
          rw [hone] at hbranch
          cases htwo : branch' raw.tag with
          | none => exact .refl _
          | some found =>
              rw [htwo] at hbranch
              cases hbranch
      | some found =>
          rw [hone] at hbranch
          cases htwo : branch' raw.tag with
          | none =>
              rw [htwo] at hbranch
              cases hbranch
          | some found' =>
              rw [htwo] at hbranch
              obtain ⟨hplace, hvalue⟩ := hbranch
              obtain ⟨place, value⟩ := found
              obtain ⟨place', value'⟩ := found'
              cases hplace
              exact .bind_left (.within _ hvalue.bind_left)

theorem StructCode.read_givesUp (flexible : Bool) (code : StructCode) (dflts : List Value) :
    GivesUp (code.read holds version sizeOf call flexible dflts)
      (code.read holds version sizeOf call' flexible dflts) := by
  refine (decodeWire_givesUp hcall code.decode dflts).bind fun wire => ?_
  cases flexible with
  | false => exact .refl _
  | true =>
      refine GivesUp.bind_left (.bind_right fun raws => ?_)
      split
      · exact .refl _
      · exact takeAllTagged_givesUp (fun tag => branchFor_givesUp hcall tag _ 0) raws _ _

end Decode

section Encode

variable {holds : Text → Bool} {version : Int16} {call call' : String → Value → Encode Bytes}

def Stuck {α : Type} (x y : Encode α) : Prop := x = y ∨ x = .error .stuck

theorem Stuck.bind {α β : Type} {x y : Encode α} {f g : α → Encode β} (h : Stuck x y)
    (hf : ∀ a, Stuck (f a) (g a)) : Stuck (x >>= f) (y >>= g) := by
  obtain rfl | rfl := h
  · cases x with
    | ok a => exact hf a
    | error e => exact .inl rfl
  · exact .inr rfl

theorem Stuck.bind_right {α β : Type} {x : Encode α} {f g : α → Encode β}
    (hf : ∀ a, Stuck (f a) (g a)) : Stuck (x >>= f) (x >>= g) :=
  Stuck.bind (.inl rfl) hf

theorem encodeArray_stuck {item item' : Value → Encode Bytes} (h : ∀ v, Stuck (item v) (item' v))
    (len : LenCall) (vs : List Value) :
    Stuck (encodeArray len item vs) (encodeArray len item' vs) := by
  have hitems : Stuck (encodeItems item vs) (encodeItems item' vs) := by
    induction vs with
    | nil => exact .inl rfl
    | cons v vs ih => exact (h v).bind fun _ => ih.bind fun _ => .inl rfl
  exact .bind_right fun _ => hitems.bind fun _ => .inl rfl

variable (hcall : ∀ name v, Stuck (call name v) (call' name v))

include hcall

theorem EncodeCode.run_stuck (code : EncodeCode) (v : Value) :
    Stuck (code.run holds version call v) (code.run holds version call' v) := by
  have helem (elem : ElementCode Put) (v : Value) :
      Stuck (elem.encode holds call v) (elem.encode holds call' v) := by
    cases elem with
    | call sw => exact .inl rfl
    | struct name => exact hcall name v
  cases code with
  | struct name => exact hcall name v
  | items len elem =>
      cases v with
      | array vs => exact encodeArray_stuck (helem elem) _ vs
      | _ => exact .inl rfl
  | nullableItems len none null elem =>
      cases v with
      | some v =>
          cases v with
          | array vs => exact encodeArray_stuck (helem elem) _ vs
          | _ => exact .inl rfl
      | _ => exact .inl rfl
  | nullableStruct null name =>
      cases v with
      | some v => exact (hcall name v).bind fun _ => .inl rfl
      | _ => exact .inl rfl
  | _ => exact .inl rfl

theorem encodeWire_stuck (codes : List (Emitted EncodeCode)) (vs : List Value) :
    Stuck (encodeWire holds version call codes vs) (encodeWire holds version call' codes vs) := by
  induction codes generalizing vs with
  | nil => cases vs <;> exact .inl rfl
  | cons code codes ih =>
      cases vs with
      | nil => exact .inl rfl
      | cons v vs =>
          refine Stuck.bind ?_ fun _ => (ih vs).bind fun _ => .inl rfl
          unfold runGuarded
          split
          · exact EncodeCode.run_stuck hcall _ v
          · exact .inl rfl

theorem encodeKnown_stuck (codes : List TaggedEncode) (vs : List Value) :
    Stuck (encodeKnown holds version call codes vs) (encodeKnown holds version call' codes vs) := by
  induction codes generalizing vs with
  | nil => cases vs <;> exact .inl rfl
  | cons code codes ih =>
      cases vs with
      | nil => exact .inl rfl
      | cons v vs =>
          refine Stuck.bind ?_ fun _ => (ih vs).bind fun _ => .inl rfl
          cases v with
          | some v =>
              simp only [TaggedEncode.run]
              split
              · exact (EncodeCode.run_stuck hcall _ v).bind fun _ => .inl rfl
              · exact .inl rfl
          | _ => exact .inl rfl

theorem StructCode.run_stuck (flexible : Bool) (code : StructCode) (v : Value) :
    Stuck (code.run holds version call flexible v) (code.run holds version call' flexible v) := by
  cases v with
  | struct wire tagged unknown =>
      refine (encodeWire_stuck hcall code.encode wire).bind fun body => ?_
      cases flexible with
      | false => exact .inl rfl
      | true =>
          have htags : Stuck (code.encodeTags holds version call tagged unknown)
              (code.encodeTags holds version call' tagged unknown) := by
            unfold StructCode.encodeTags
            split
            · exact .inl rfl
            · exact (encodeKnown_stuck hcall code.encodeTagged tagged).bind fun _ => .inl rfl
          exact htags.bind fun _ => .inl rfl
  | _ => exact .inl rfl

end Encode

section Programs

variable {program : Program} {version : Int16} {sizeOf : SizeOf} {depth depth' : Nat}

theorem Program.decode_givesUp (hle : depth ≤ depth') (name : String) :
    GivesUp (program.decode version sizeOf depth name)
      (program.decode version sizeOf depth' name) := by
  induction depth generalizing depth' name with
  | zero => exact .stuck _
  | succ depth ih =>
      obtain _ | depth' := depth'
      · omega
      · unfold Program.decode
        split
        · exact StructCode.read_givesUp (fun name => ih (Nat.le_of_succ_le_succ hle) name) _ _ _
        · exact .refl _

theorem Program.encode_stuck (hle : depth ≤ depth') (name : String) (v : Value) :
    Stuck (program.encode version depth name v) (program.encode version depth' name v) := by
  induction depth generalizing depth' name v with
  | zero => exact .inr rfl
  | succ depth ih =>
      obtain _ | depth' := depth'
      · omega
      · unfold Program.encode
        split
        · exact StructCode.run_stuck (fun name v => ih (Nat.le_of_succ_le_succ hle) name v) _ _ v
        · exact .inl rfl

end Programs

end Odradek.Codegen
