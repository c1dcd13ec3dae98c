import SshTunnel.Lib.NetHost
import SshTunnel.Rules

/-!
# Rules for a bare address (`rules/rules.go:32-54`)

`UnMarshall` completes a cidr without a slash to `/32` before it knows the family
of the address.
-/

namespace SshTunnel.Rules

open Lib.Net

theorem parseIPv4Fields_colon {s : Text} {val digLen : ℕ} {fields : List Byte}
    (h : ':' ∈ s) : parseIPv4Fields s val digLen fields = none := by
  induction s generalizing val digLen fields with
  | nil => cases h
  | cons c cs ih =>
    rw [parseIPv4Fields]
    rcases List.mem_cons.mp h with rfl | hcs
    · have hcolon : digitVal ':' = none := by decide
      simp [hcolon]
    · split
      · simp [ih hcs]
      · simp [ih hcs]

theorem parseAddr_family {a : Text} {addr : Addr} (h : parseAddr a = some addr) :
    (':' ∉ a → addr.bytes.length = 4) ∧ (':' ∈ a → addr.bytes.length = 16) := by
  unfold parseAddr at h
  split at h
  · obtain ⟨ip, hp, rfl⟩ := Option.map_eq_some_iff.mp h
    refine ⟨fun _ => parseIPv4Fields_length (by simp) hp, fun hcolon => ?_⟩
    rw [parseIPv4Fields_colon hcolon] at hp
    cases hp
  · rename_i hfind
    refine ⟨fun hcolon => absurd (List.mem_of_find?_eq_some hfind) hcolon, fun _ => ?_⟩
    unfold parseIPv6 at h
    dsimp only at h
    split_ifs at h
    obtain ⟨ip, hp, rfl⟩ := Option.map_eq_some_iff.mp h
    exact parseIPv6Body_length hp
  · cases h

/-- The network of a bare address: 32 bits of it, in either family. -/
theorem parseCIDR_bare {a : Text} {b : IP} (hslash : '/' ∉ a) (h : parseAddr a = some ⟨b, []⟩) :
    ∃ ip, parseCIDR (a ++ "/32".toList) =
      some (ip, ⟨andBytes b (cidrMask 32 b.length), cidrMask 32 b.length⟩) := by
  have hp : ∀ c ∈ a, decide (c ≠ '/') = true := by
    intro c hc
    have hne : c ≠ '/' := fun he => hslash (he ▸ hc)
    simpa using hne
  have hmem : '/' ∈ a ++ "/32".toList := List.mem_append_right a (by decide)
  have htake : (a ++ "/32".toList).takeWhile (· ≠ '/') = a := by
    rw [List.takeWhile_append_of_pos hp]
    simp
  have hdrop : ((a ++ "/32".toList).dropWhile (· ≠ '/')).drop 1 = "32".toList := by
    rw [List.dropWhile_append_of_pos hp]
    rfl
  have hdtoi : (if "32".toList = [] then none else dtoi "32".toList 0) = some 32 := by decide
  simp only [parseCIDR, if_pos hmem, htake, hdrop, h, hdtoi]
  rcases parseAddr_length h with h4 | h16
  · have h4 : b.length = 4 := h4
    refine ⟨v4InV6Prefix ++ b, ?_⟩
    have hm : maskIP (v4InV6Prefix ++ b) (cidrMask 32 4) = andBytes b (cidrMask 32 4) := by
      simp [maskIP, cidrMask_length, h4, v4InV6Prefix]
    simp [h4, hm]
  · have h16 : b.length = 16 := h16
    refine ⟨b, ?_⟩
    have hm : maskIP b (cidrMask 32 16) = andBytes b (cidrMask 32 16) := by
      simp [maskIP, cidrMask_length, h16]
    simp [h16, hm]

/-- `UnMarshall` gives a rule for exactly the address `b`. -/
def MatchesOnly (a dialer : Text) (b : IP) : Prop :=
  ∃ rule, unMarshall ⟨a, dialer⟩ = .ok rule ∧
    ∀ x, contains rule.ipNet x = true ↔ ipEqual x b = true

/-- The rule for a bare address matches exactly this address if and only if it is
written as an IPv4 address. -/
theorem bare_rule_iff (a dialer : Text) (b : IP) (hslash : '/' ∉ a)
    (haddr : parseAddr a = some ⟨b, []⟩) : MatchesOnly a dialer b ↔ ':' ∉ a := by
  obtain ⟨ip, hcidr⟩ := parseCIDR_bare hslash haddr
  have hrule : unMarshall ⟨a, dialer⟩ =
      .ok ⟨⟨andBytes b (cidrMask 32 b.length), cidrMask 32 b.length⟩,
        if dialer = [] then "default".toList else dialer⟩ := by
    simp only [unMarshall, if_neg hslash, hcidr]
  have hmatches : MatchesOnly a dialer b ↔
      ∀ x, contains ⟨andBytes b (cidrMask 32 b.length), cidrMask 32 b.length⟩ x = true ↔
        ipEqual x b = true := by
    unfold MatchesOnly
    rw [hrule]
    constructor
    · rintro ⟨rule, heq, hx⟩
      cases heq
      exact hx
    · intro hx
      exact ⟨_, rfl, hx⟩
  rw [hmatches]
  by_cases hcolon : ':' ∈ a
  · have h16 : b.length = 16 := (parseAddr_family haddr).2 hcolon
    rw [h16]
    exact iff_of_false (contains_host16_ne h16) (not_not.mpr hcolon)
  · have h4 : b.length = 4 := (parseAddr_family haddr).1 hcolon
    have hfull : andBytes b (cidrMask 32 4) = b := by
      have hones := andBytes_bytes (k := 4) (m := 0) h4
      rwa [List.replicate_zero, List.append_nil, ← h4, List.take_length, h4] at hones
    rw [h4, hfull]
    exact iff_of_true (contains_host4 h4) hcolon

theorem bare_rule_four :
    MatchesOnly "10.1.2.3".toList [] [10, 1, 2, 3] ∧
      ¬MatchesOnly "2001:db8::1".toList []
        [32, 1, 13, 184, 0, 0, 0, 0, 0, 0, 0, 0, 0, 0, 0, 1] := by
  refine ⟨(bare_rule_iff _ _ _ (by decide) (by decide)).mpr (by decide), fun h => ?_⟩
  have hcolon := (bare_rule_iff "2001:db8::1".toList [] _ (by decide) (by decide)).mp h
  revert hcolon
  decide

theorem bare_rule_too_wide :
    ¬∀ (a dialer : Text) (b : IP), '/' ∉ a → parseAddr a = some ⟨b, []⟩ →
      MatchesOnly a dialer b := by
  intro hall
  obtain ⟨rule, hrule, hx⟩ := hall "2001:db8::1".toList []
    [32, 1, 13, 184, 0, 0, 0, 0, 0, 0, 0, 0, 0, 0, 0, 1] (by decide) (by decide)
  have hok : unMarshall ⟨"2001:db8::1".toList, []⟩ =
      .ok ⟨⟨[32, 1, 13, 184, 0, 0, 0, 0, 0, 0, 0, 0, 0, 0, 0, 0],
        [255, 255, 255, 255, 0, 0, 0, 0, 0, 0, 0, 0, 0, 0, 0, 0]⟩, "default".toList⟩ := by decide
  rw [hok, Except.ok.injEq] at hrule
  have hsecond := hx [32, 1, 13, 184, 0, 0, 0, 0, 0, 0, 0, 0, 0, 0, 0, 2]
  rw [← hrule] at hsecond
  revert hsecond
  decide

end SshTunnel.Rules
