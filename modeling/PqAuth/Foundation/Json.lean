import Mathlib.Data.List.Perm.Basic
import PqAuth.Foundation.Words

/-! JSON documents as their value trees, and how a record is read from one: each
field from the one member of its name, whatever else is there, in any order. -/
namespace PqAuth

/-- A document. An object keeps its members in the order of the text, repeated names included. -/
inductive Json where
  | null
  | bool (b : Bool)
  /-- An integer of 64 bits, with or without a sign. -/
  | int (n : ℤ)
  /-- Any other number that a double can stand for, by its text. -/
  | float (literal : String)
  | string (s : String)
  /-- Well-formed text that no value stands for: a number too large for a double,
  a string that is not Unicode. A reader can only skip it. -/
  | unread (text : Bytes)
  | array (items : List Json)
  | object (members : List (String × Json))

namespace Json

def asString : Json → Option String
  | .string s => some s
  | _ => none

def asBool : Json → Option Bool
  | .bool b => some b
  | _ => none

def asNat (bound : ℕ) : Json → Option ℕ
  | .int n => if 0 ≤ n ∧ n < bound then some n.toNat else none
  | _ => none

def asU64 (j : Json) : Option UInt64 := (j.asNat (2 ^ 64)).map UInt64.ofNat

def asU32 (j : Json) : Option UInt32 := (j.asNat (2 ^ 32)).map UInt32.ofNat

def asArray : Json → Option (List Json)
  | .array items => some items
  | _ => none

def ofNat (n : ℕ) : Json := .int n

/-- Whether a reader that goes `depth` containers deep can keep the document for later. -/
def buffers : ℕ → Json → Bool
  | _, .unread _ => false
  | 0, .array _ => false
  | 0, .object _ => false
  | depth + 1, .array items => items.all (buffers depth)
  | depth + 1, .object members => members.all (fun m => buffers depth m.2)
  | _, _ => true

@[simp] theorem asString_string (s : String) : asString (.string s) = some s := rfl

@[simp] theorem asBool_bool (b : Bool) : asBool (.bool b) = some b := rfl

theorem asNat_ofNat {bound n : ℕ} (h : n < bound) : asNat bound (ofNat n) = some n := by
  have hn : 0 ≤ (n : ℤ) ∧ (n : ℤ) < bound := ⟨Int.natCast_nonneg n,Int.ofNat_lt.mpr h⟩
  exact if_pos hn

@[simp] theorem asU64_ofNat (n : UInt64) : asU64 (ofNat n.toNat) = some n := by
  rw [asU64, asNat_ofNat n.toNat_lt, Option.map_some, UInt64.ofNat_toNat]

@[simp] theorem asU32_ofNat (n : UInt32) : asU32 (ofNat n.toNat) = some n := by
  rw [asU32, asNat_ofNat n.toNat_lt, Option.map_some, UInt32.ofNat_toNat]

theorem asString_eq_some {j : Json} {s : String} : asString j = some s ↔ j = .string s := by
  cases j <;> simp [asString]

theorem asNat_eq_some {bound n : ℕ} {j : Json} : asNat bound j = some n ↔ j = ofNat n ∧ n < bound := by
  constructor
  · intro h
    cases j with
    | int i =>
      rw [asNat, Option.ite_none_right_eq_some] at h
      obtain ⟨⟨hpos,hlt⟩,hn⟩ := h
      obtain rfl := Option.some.inj hn
      exact ⟨congrArg Json.int (Int.toNat_of_nonneg hpos).symm,by omega⟩
    | _ => cases h
  · rintro ⟨rfl,hn⟩
    exact asNat_ofNat hn

theorem asU64_eq_some {j : Json} {x : UInt64} : asU64 j = some x ↔ j = ofNat x.toNat := by
  constructor
  · intro h
    obtain ⟨n,hn,rfl⟩ := Option.map_eq_some_iff.mp h
    obtain ⟨rfl,hlt⟩ := asNat_eq_some.mp hn
    rw [UInt64.toNat_ofNat_of_lt' hlt]
  · rintro rfl
    exact asU64_ofNat x

theorem asU32_eq_some {j : Json} {x : UInt32} : asU32 j = some x ↔ j = ofNat x.toNat := by
  constructor
  · intro h
    obtain ⟨n,hn,rfl⟩ := Option.map_eq_some_iff.mp h
    obtain ⟨rfl,hlt⟩ := asNat_eq_some.mp hn
    rw [UInt32.toNat_ofNat_of_lt' hlt]
  · rintro rfl
    exact asU32_ofNat x

abbrev Members := List (String × Json)

/-- Everything an object gives for a name. -/
def valuesOf (k : String) (ms : Members) : List Json := (ms.filter (fun m => m.1 == k)).map Prod.snd

/-- A field must be there, and once. -/
def member (k : String) (ms : Members) : Option Json :=
  match valuesOf k ms with
  | [v] => some v
  | _ => none

/-- The fields of a record, in the order of its declaration. An array gives them by position. -/
def fields (names : List String) : Json → Option (List Json)
  | .object ms => names.mapM (fun k => member k ms)
  | .array items => if items.length = names.length then some items else none
  | _ => none

@[simp] theorem valuesOf_nil (k : String) : valuesOf k [] = [] := rfl

@[simp] theorem valuesOf_self (k : String) (v : Json) (ms : Members) :
    valuesOf k ((k,v) :: ms) = v :: valuesOf k ms := by
  simp [valuesOf]

theorem valuesOf_of_ne {k l : String} (h : l ≠ k) (v : Json) (ms : Members) :
    valuesOf k ((l,v) :: ms) = valuesOf k ms := by
  simp [valuesOf, h]

theorem valuesOf_append (k : String) (ms extra : Members) :
    valuesOf k (ms ++ extra) = valuesOf k ms ++ valuesOf k extra := by
  simp [valuesOf]

theorem valuesOf_eq_nil {k : String} {ms : Members} (h : ∀ m ∈ ms, m.1 ≠ k) : valuesOf k ms = [] := by
  simpa [valuesOf] using h

theorem member_perm {ms ms' : Members} (h : ms.Perm ms') (k : String) : member k ms = member k ms' := by
  have hvalues : (valuesOf k ms).Perm (valuesOf k ms') := (h.filter _).map _
  unfold member
  generalize valuesOf k ms = vs at hvalues
  generalize valuesOf k ms' = vs' at hvalues
  match vs, vs', hvalues.length_eq with
  | [], [], _ => rfl
  | [v], [v'], _ => rw [(List.singleton_perm_singleton.mp hvalues)]
  | _ :: _ :: _, _ :: _ :: _, _ => rfl

theorem member_filter {p : String → Bool} {k : String} (hk : p k = true) (ms : Members) :
    member k (ms.filter (fun m => p m.1)) = member k ms := by
  have hvalues : valuesOf k (ms.filter (fun m => p m.1)) = valuesOf k ms := by
    rw [valuesOf, valuesOf, List.filter_filter]
    congr 1
    apply List.filter_congr
    intro m _
    cases hm : m.1 == k with
    | false => rfl
    | true => rw [eq_of_beq hm, hk]; rfl
  rw [member, member, hvalues]

theorem fields_cons_eq_some {k : String} {names : List String} {v : Json} {vs : List Json} {ms : Members} :
    fields (k :: names) (.object ms) = some (v :: vs) ↔
      member k ms = some v ∧ fields names (.object ms) = some vs := by
  simp only [fields, List.mapM_cons]
  cases member k ms <;> cases names.mapM (fun k => member k ms) <;> simp

/-- A document that gives the fields of a record by name, or all of them by position. -/
def Gives (names : List String) (vs : List Json) (j : Json) : Prop :=
  (∃ ms, j = .object ms ∧ List.Forall₂ (fun k v => member k ms = some v) names vs) ∨
    (j = .array vs ∧ vs.length = names.length)

theorem fields_object_iff {names : List String} {vs : List Json} {ms : Members} :
    fields names (.object ms) = some vs ↔ List.Forall₂ (fun k v => member k ms = some v) names vs := by
  induction names generalizing vs with
  | nil => cases vs <;> simp [fields]
  | cons k names ih =>
    cases vs with
    | nil =>
      simp only [fields, List.mapM_cons]
      cases member k ms <;> cases names.mapM (fun k => member k ms) <;> simp
    | cons v vs => rw [fields_cons_eq_some, ih, List.forall₂_cons]

theorem fields_eq_some {names : List String} {vs : List Json} {j : Json} :
    fields names j = some vs ↔ Gives names vs j := by
  cases j with
  | object ms => simp [Gives, fields_object_iff]
  | array items =>
    simp only [fields, Option.ite_none_right_eq_some, Option.some.injEq, Gives, Json.array.injEq, reduceCtorEq,
      false_and, exists_false, false_or]
    constructor
    · rintro ⟨hlen,rfl⟩
      exact ⟨rfl,hlen⟩
    · rintro ⟨rfl,hlen⟩
      exact ⟨hlen,rfl⟩
  | _ => simp [Gives, fields]

/-- An object with the given members in any order and others beside them. -/
def Extends (known : List String) (ms ms' : Members) : Prop :=
  ∃ extra : Members, (∀ m ∈ extra, m.1 ∉ known) ∧ ms'.Perm (ms ++ extra)

variable {known : List String} {ms ms' : Members}

theorem Extends.of_perm (known : List String) (h : ms'.Perm ms) : Extends known ms ms' := ⟨[],by simp,by simpa using h⟩

theorem Extends.cons (h : Extends known ms ms') {k : String} (hk : k ∉ known) (v : Json) :
    Extends known ms ((k,v) :: ms') := by
  obtain ⟨extra,hextra,hperm⟩ := h
  exact ⟨(k,v) :: extra,List.forall_mem_cons.mpr ⟨hk,hextra⟩,(hperm.cons _).trans List.perm_middle.symm⟩

theorem Extends.member_eq (h : Extends known ms ms') {k : String} (hk : k ∈ known) : member k ms' = member k ms := by
  obtain ⟨extra,hextra,hperm⟩ := h
  have hnone : valuesOf k extra = [] := valuesOf_eq_nil fun m hm heq => hextra m hm (heq ▸ hk)
  rw [member_perm hperm k, member, member, valuesOf_append, hnone, List.append_nil]

theorem fields_congr {names : List String} (h : ∀ k ∈ names, member k ms' = member k ms) :
    fields names (.object ms') = fields names (.object ms) := by
  induction names with
  | nil => rfl
  | cons k names ih =>
    have hrest : names.mapM (fun k => member k ms') = names.mapM (fun k => member k ms) :=
      ih fun l hl => h l (List.mem_cons_of_mem k hl)
    simp only [fields, List.mapM_cons, h k List.mem_cons_self, hrest]

/-- Reading a record does not depend on the order of the members or on unknown ones. -/
theorem Extends.fields_eq (h : Extends known ms ms') {names : List String} (hsub : names ⊆ known) :
    fields names (.object ms') = fields names (.object ms) :=
  fields_congr fun _ hk => h.member_eq (hsub hk)

/-- A record written member by member is read back. -/
theorem fields_zip {names : List String} (h : names.Nodup) {vs : List Json} (hlen : names.length = vs.length) :
    fields names (.object (names.zip vs)) = some vs := by
  induction names generalizing vs with
  | nil => rw [List.length_eq_zero_iff.mp hlen.symm]; rfl
  | cons k names ih =>
    obtain ⟨hk,hnames⟩ := List.nodup_cons.mp h
    cases vs with
    | nil => cases hlen
    | cons v vs =>
      have hself : member k ((k,v) :: names.zip vs) = some v := by
        have hnone : valuesOf k (names.zip vs) = [] :=
          valuesOf_eq_nil fun m hm heq => hk (heq ▸ (List.of_mem_zip hm).1)
        rw [member, valuesOf_self, hnone]
      have hrest : fields names (.object ((k,v) :: names.zip vs)) = some vs := by
        rw [← ih hnames (Nat.succ.inj hlen)]
        refine fields_congr fun l hl => ?_
        have hne : k ≠ l := fun heq => hk (heq ▸ hl)
        rw [member, member, valuesOf_of_ne hne]
      rw [fields] at hrest
      simp [fields, hself, hrest]

/-- So is a record whose members were rearranged, among others that are no fields of it. -/
theorem Extends.read {names : List String} {vs : List Json} (h : Extends known (names.zip vs) ms')
    (hsub : names ⊆ known) (hnames : names.Nodup) (hlen : names.length = vs.length) :
    fields names (.object ms') = some vs := (h.fields_eq hsub).trans (fields_zip hnames hlen)

end Json
end PqAuth
