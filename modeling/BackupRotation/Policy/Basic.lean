import BackupRotation.Tier
/-! Rotation policies: keep everything, keep the newest few, or keep one backup in each of a number
of windows of four widths. Any count can be asked for; it is brought into 32 bits. -/
namespace BackupRotation

inductive Policy where
  | none
  | simple (count : UInt32)
  | smart (daily weekly monthly yearly : UInt32)
  deriving DecidableEq, Repr

namespace Policy

def largestCount : UInt32 := 4294967295

/-- Negative counts mean 0, counts beyond 32 bits the largest. -/
def clamp (n : Int) : UInt32 :=
  if n < 0 then 0 else if n ≤ 4294967295 then UInt32.ofNat n.toNat else largestCount

def ofCount (n : Int) : Policy := simple (clamp n)

def ofCounts (daily weekly monthly yearly : Int) : Policy :=
  smart (clamp daily) (clamp weekly) (clamp monthly) (clamp yearly)

def countOf : Policy → Tier → UInt32
  | smart d _ _ _, .daily => d
  | smart _ w _ _, .weekly => w
  | smart _ _ m _, .monthly => m
  | smart _ _ _ y, .yearly => y
  | _, _ => 0

def enabledTiers (p : Policy) : List (Tier × UInt32) :=
  (Tier.all.map fun t => (t, p.countOf t)).filter fun (_, n) => n != 0

def kind : Policy → String
  | none => "none"
  | simple _ => "simple"
  | smart .. => "smart"

theorem clamp_toNat (n : UInt32) : clamp (n.toNat : Int) = n := by
  have h := n.toNat_lt
  unfold clamp
  split
  · omega
  · split
    · simp
    · omega

theorem enabledTiersIff (p : Policy) (t : Tier) (n : UInt32) :
    (t, n) ∈ p.enabledTiers ↔ p.countOf t = n ∧ n ≠ 0 := by
  simp only [enabledTiers, List.mem_filter, List.mem_map, bne_iff_ne, ne_eq]
  constructor
  · rintro ⟨⟨t', _, h⟩, hn⟩
    cases h
    exact ⟨rfl, hn⟩
  · rintro ⟨rfl, hn⟩
    exact ⟨⟨t, Tier.mem_all t, rfl⟩, hn⟩

end Policy
end BackupRotation
