import PqAuth.Foundation.Envelope
import PqAuth.Source.Enrollment
import PqAuth.Source.PqTotp
import PqAuth.Source.Transparent

/-! What two equal MACs or equal MAC inputs have in common. The envelope frames
keys of one length; the seed chain uses no others. -/
namespace PqAuth.ShakeMac

/-- Two different inputs with one output. -/
def Collides (xof : Xof) (outLen : ℕ) (x y : Bytes) : Prop :=
  x ≠ y ∧ shake256 xof x outLen = shake256 xof y outLen

theorem eq_or_collides {xof : Xof} {outLen : ℕ} {x y : Bytes} (h : shake256 xof x outLen = shake256 xof y outLen) :
    x = y ∨ Collides xof outLen x y := by
  by_cases hxy : x = y
  · exact Or.inl hxy
  · exact Or.inr ⟨hxy,h⟩

theorem envelope_eq_wrap (key message : Bytes) : envelope key message = Envelope.wrap key message := rfl

theorem shake256Mac_eq (xof : Xof) (key message : Bytes) (outLen : ℕ) :
    shake256Mac xof key message outLen = shake256 xof (envelope key message) outLen := rfl

theorem shake256MacFixed_eq (xof : Xof) (key message : Bytes) :
    (shake256MacFixed xof key message).val = shake256 xof (envelope key message) 32 := rfl

theorem mac_eq (xof : Xof) (key message : Bytes) :
    ((Context.new key).mac xof message).val = shake256 xof (envelope key message) 32 := rfl

/-- Equal inputs come from equal pairs, and equal tags from equal pairs or a
collision of SHAKE-256 on the two inputs. -/
structure Separates (key message key' message' : Bytes) : Prop where
  absorbed : envelope key message = envelope key' message' → key = key' ∧ message = message'
  tags : ∀ xof outLen, shake256Mac xof key message outLen = shake256Mac xof key' message' outLen →
    (key = key' ∧ message = message') ∨ Collides xof outLen (envelope key message) (envelope key' message')
  fixedTags : ∀ xof, shake256MacFixed xof key message = shake256MacFixed xof key' message' →
    (key = key' ∧ message = message') ∨ Collides xof 32 (envelope key message) (envelope key' message')
  contexts : ∀ xof, (Context.new key).mac xof message = (Context.new key').mac xof message' →
    (key = key' ∧ message = message') ∨ Collides xof 32 (envelope key message) (envelope key' message')

/-- The pairs are separated unless one key borders the other and the messages
make up the difference. -/
theorem separates_iff (key message key' message' : Bytes) :
    Separates key message key' message' ↔
      ¬ (Envelope.Overlaps key message key' message' ∨ Envelope.Overlaps key' message' key message) := by
  constructor
  · exact fun h => Envelope.wrap_injective_iff.mp h.absorbed
  · intro hnone
    have hinj : envelope key message = envelope key' message' → key = key' ∧ message = message' := by
      rw [envelope_eq_wrap, envelope_eq_wrap]
      exact Envelope.wrap_injective_iff.mpr hnone
    have htags (xof : Xof) (outLen : ℕ)
        (h : shake256 xof (envelope key message) outLen = shake256 xof (envelope key' message') outLen) :
        (key = key' ∧ message = message') ∨ Collides xof outLen (envelope key message) (envelope key' message') :=
      (eq_or_collides h).imp_left hinj
    refine ⟨hinj,?_,?_,?_⟩
    · intro xof outLen h
      rw [shake256Mac_eq, shake256Mac_eq] at h
      exact htags xof outLen h
    · intro xof h
      have htag := congrArg Subtype.val h
      rw [shake256MacFixed_eq, shake256MacFixed_eq] at htag
      exact htags xof 32 htag
    · intro xof h
      have htag := congrArg Subtype.val h
      rw [mac_eq, mac_eq] at htag
      exact htags xof 32 htag

/-- The keys `a` and `aa` with messages that differ by two letters. -/
theorem repeated_byte_not_separated : ¬ Separates [0x61] [0x61,0x61] [0x61,0x61] [] := by
  intro h
  exact absurd (h.absorbed rfl).1 (by decide)

end PqAuth.ShakeMac

namespace PqAuth.Enrollment
open ShakeMac

/-- A secret of known length ends where the identity begins. -/
theorem seedInput_inj {sharedSecret sharedSecret' : Bytes} {serverId serverId' : String}
    (hlen : sharedSecret.length = sharedSecret'.length)
    (h : seedInput sharedSecret serverId = seedInput sharedSecret' serverId') :
    sharedSecret = sharedSecret' ∧ serverId = serverId' := by
  rw [seedInput, seedInput, List.append_assoc, List.append_assoc] at h
  obtain ⟨hsecret,hid⟩ := List.append_inj (List.append_cancel_left h) hlen
  exact ⟨hsecret,Words.utf8_inj.mp hid⟩

/-- Seeds of different secrets or servers agree only by a collision. -/
theorem deriveTotpSeed_inj {crates : Crates} {sharedSecret sharedSecret' : Bytes} {serverId serverId' : String}
    (hlen : sharedSecret.length = sharedSecret'.length)
    (h : deriveTotpSeed crates sharedSecret serverId = deriveTotpSeed crates sharedSecret' serverId') :
    (sharedSecret = sharedSecret' ∧ serverId = serverId') ∨
      Collides crates.shake256 totpSeedLen (seedInput sharedSecret serverId) (seedInput sharedSecret' serverId') :=
  (eq_or_collides h).imp_left (seedInput_inj hlen)

end PqAuth.Enrollment

namespace PqAuth.PqTotp
open ShakeMac Enrollment

/-- The string that `generate_at_step` absorbs. -/
def macInput (secret : Bytes) (counter : UInt64) : Bytes := envelope secret (Words.toBeBytes counter)

/-- What `generate_at_step` cuts its code from is the hash of that string. -/
theorem mac_absorbs (xof : Xof) (secret : Bytes) (counter : UInt64) :
    shake256Mac xof secret (Words.toBeBytes counter) 32 = shake256 xof (macInput secret counter) 32 := rfl

/-- Seeds are of one length, so the envelope frames the step counter. -/
theorem macInput_inj {secret secret' : Bytes} {counter counter' : UInt64} (hlen : secret.length = secret'.length)
    (h : macInput secret counter = macInput secret' counter') : secret = secret' ∧ counter = counter' := by
  obtain ⟨hsecret,hcounter⟩ := Envelope.wrap_inj_of_length hlen h
  exact ⟨hsecret,Words.toBeBytes_injective hcounter⟩

/-- A code is cut from the hash of its input. -/
theorem truncate_macInput (xof : Xof) (secret : Bytes) (counter : UInt64) :
    truncate (shake256 xof (macInput secret counter) 32) = some (generateAtStep xof secret counter) := by
  rw [← mac_absorbs]
  exact truncate_mac xof secret counter

/-- A code is a function of the hash of its input, and inputs of different secrets,
servers or time steps differ, or two seed inputs collide in their 32 bytes of output. -/
theorem chain_separated (crates : Crates) {sharedSecret sharedSecret' : Bytes} (serverId serverId' : String)
    (counter counter' : UInt64) (hlen : sharedSecret.length = Kyber.sharedSecretSize)
    (hlen' : sharedSecret'.length = Kyber.sharedSecretSize) :
    (∀ seed step, truncate (shake256 crates.shake256 (macInput seed step) 32) =
      some (generateAtStep crates.shake256 seed step)) ∧
    (macInput (deriveTotpSeed crates sharedSecret serverId) counter =
        macInput (deriveTotpSeed crates sharedSecret' serverId') counter' →
      (sharedSecret = sharedSecret' ∧ serverId = serverId' ∧ counter = counter') ∨
        Collides crates.shake256 32 (seedInput sharedSecret serverId) (seedInput sharedSecret' serverId')) := by
  refine ⟨truncate_macInput crates.shake256,fun h => ?_⟩
  have hseeds : (deriveTotpSeed crates sharedSecret serverId).length =
      (deriveTotpSeed crates sharedSecret' serverId').length := by simp
  obtain ⟨hseed,rfl⟩ := macInput_inj hseeds h
  rcases deriveTotpSeed_inj (hlen.trans hlen'.symm) hseed with ⟨hsecret,hid⟩ | hcollides
  · exact Or.inl ⟨hsecret,hid,rfl⟩
  · exact Or.inr hcollides

/-- A function that drops the identity collides on two of them. -/
theorem chain_separated_dropped_identity :
    let secret : Bytes := List.replicate 32 7
    (secret = secret ∧ "a.org" = "b.org" ∧ (5 : UInt64) = 5) ∨
      Collides Transparent.shake256 32 (seedInput secret "a.org") (seedInput secret "b.org") :=
  (@chain_separated Transparent.crates (List.replicate 32 7) (List.replicate 32 7) "a.org" "b.org" 5 5
    List.length_replicate List.length_replicate).2 (by decide)

end PqAuth.PqTotp
