import Memmy.Security.Reading

/-! # What the guard lets through

* `exact_iff`: the test of a text decides membership in every network exactly where the text is read right.
* `safe_of_letThrough`: a URL that is let through, and whose addresses are read right, reaches no blocked
  host when none of its addresses embeds one; `noneEmbedded_of_safe` is the converse.
* `letThrough_of_fetched`, `letThrough_of_command`: what is fetched, and every URL of a command that passes,
  has been let through.
* `guard_iff`: the parts together, with the check of literal addresses. -/

namespace Memmy.Security.UrlGuard

open Lib.IpAddress Lib.Result Security.Network Security.Reading List Option Except

/-! ### The test of one network -/

/-- A network as the guard keeps it. -/
def cidrOf (n : Network) : Cidr := ⟨n.base, n.bits, n.version⟩

def blocked : List Network := [
  ⟨.v4, 0x00000000, 8⟩,
  ⟨.v4, 0x0a000000, 8⟩,
  ⟨.v4, 0x64400000, 10⟩,
  ⟨.v4, 0x7f000000, 8⟩,
  ⟨.v4, 0xa9fe0000, 16⟩,
  ⟨.v4, 0xac100000, 12⟩,
  ⟨.v4, 0xc0a80000, 16⟩,
  ⟨.v6, 1, 128⟩,
  ⟨.v6, 0xfc00 * 2 ^ 112, 7⟩,
  ⟨.v6, 0xfe80 * 2 ^ 112, 10⟩]

theorem blockedNetworks_eq : blockedNetworks = blocked.map cidrOf := by decide +kernel

/-- **The test of a text is exact:** it decides of every network whether the address is in it. -/
def Exact (text : List Char) (a : Address) : Prop :=
  ∀ n : Network, inCidr text (cidrOf n) = .ok (decide (n.Contains a))

variable {a : Address} {text url : List Char} {whitelist : List Network}

theorem inCidr_eq {value : ℕ} {version : Version} (n : Network)
    (h : parseIp text = .ok (some ⟨value, version⟩)) :
    inCidr text (cidrOf n) = .ok (decide (n.Contains ⟨version, value⟩)) := by
  unfold inCidr
  rw [h, ok_bind]
  simp only [pure_eq]
  by_cases hversion : version = n.version
  · have hshift : ((value : ℤ) / 2 ^ ((cidrOf n).version.bits - (cidrOf n).bits) =
        (cidrOf n).base / 2 ^ ((cidrOf n).version.bits - (cidrOf n).bits)) ↔
        value / n.size = n.base / n.size := by
      show ((value : ℤ) / 2 ^ (n.version.bits - n.bits) = (n.base : ℤ) / 2 ^ (n.version.bits - n.bits)) ↔ _
      norm_cast
    rw [if_neg (by simpa [cidrOf] using hversion)]
    congr 1
    rw [decide_eq_decide, hshift, Network.contains_iff]
    exact (and_iff_right hversion).symm
  · rw [if_pos (by simpa [cidrOf] using hversion)]
    congr 1
    symm
    rw [decide_eq_false_iff_not]
    exact fun hcontains => hversion hcontains.1

theorem parseIp_v4 (h : isIPv4 text = true) : parseIp text = .ok (some ⟨ofGroups 256 (octets text), .v4⟩) := by
  have hvalue : ipv4ToBigint text = (ofGroups 256 (octets text) : ℤ) := by
    unfold ipv4ToBigint octets ofGroups
    rw [foldl_map]
    have hfold : ∀ (parts : List (List Char)) (acc : ℕ),
        parts.foldl (fun acc part => acc * 2 ^ 8 + (ofDigits 10 part : ℤ)) (acc : ℤ) =
          (parts.foldl (fun acc part => acc * 256 + ofDigits 10 part) acc : ℕ) := by
      intro parts
      induction parts with
      | nil => exact fun _ => rfl
      | cons part parts ih =>
        intro acc
        rw [foldl_cons, foldl_cons, ← ih]
        norm_num
    exact_mod_cast hfold (text.splitOn '.') 0
  unfold parseIp isIP
  rw [if_pos h]
  simp only [hvalue]

theorem parseIp_v6 (h4 : isIPv4 text = false) (h : isIPv6 text = true) :
    parseIp text = ipv6ToBigint text >>= fun value => .ok (some ⟨value, .v6⟩) := by
  unfold parseIp isIP
  rw [if_neg (by rw [h4]; exact Bool.false_ne_true), if_pos h]
  rfl

theorem denote_cases (h : denote text = some a) :
    (isIPv4 text = true ∧ a = ⟨.v4, ofGroups 256 (octets text)⟩) ∨
    (isIPv4 text = false ∧ isIPv6 text = true ∧ a = ⟨.v6, ofGroups (2 ^ 16) (groups text)⟩) := by
  unfold denote at h
  split_ifs at h with h4 h6
  · exact Or.inl ⟨h4, (some.inj h).symm⟩
  · exact Or.inr ⟨Bool.eq_false_iff.mpr h4, h6, (some.inj h).symm⟩

/-- **The test of a text is exact** exactly where the guard reads it right. -/
theorem exact_iff (h : denote text = some a) (hcolon : a.version = .v6 → ':' ∉ zoneOf text) :
    Exact text a ↔ (a.version = .v6 → ReadRight text) := by
  rcases denote_cases h with ⟨h4, rfl⟩ | ⟨h4, h6, rfl⟩
  · exact iff_of_true (fun n => inCidr_eq n (parseIp_v4 h4)) nofun
  · have hread := read_iff h6 (hcolon rfl)
    constructor
    · intro hexact _
      have hself := hexact ⟨.v6, ofGroups (2 ^ 16) (groups text), 128⟩
      have hcontains : (⟨.v6, ofGroups (2 ^ 16) (groups text), 128⟩ : Network).Contains
          ⟨.v6, ofGroups (2 ^ 16) (groups text)⟩ := (Network.contains_iff _ _).mpr ⟨rfl, rfl⟩
      rw [decide_eq_true hcontains] at hself
      unfold inCidr at hself
      rw [parseIp_v6 h4 h6] at hself
      rw [← hread]
      cases hvalue : ipv6ToBigint text with
      | error e =>
        rw [hvalue] at hself
        cases hself
      | ok value =>
        rw [hvalue] at hself
        simpa [cidrOf, Version.bits] using hself
    · intro hright n
      refine inCidr_eq n ?_
      rw [parseIp_v6 h4 h6, hread.mpr (hright rfl)]
      rfl

/-! ### One address -/

/-- The host is in one of the networks. -/
def InSome (networks : List Network) (a : Address) : Prop := ∃ n ∈ networks, n.Contains a

instance (networks : List Network) (a : Address) : Decidable (InSome networks a) := by
  unfold InSome; infer_instance

/-- **The address denotes a blocked host** outside the whitelist. -/
def DenotesBlocked (whitelist : List Network) (a : Address) : Prop :=
  (∃ host ∈ hosts a, InSome blocked host) ∧ ¬ ∃ host ∈ hosts a, InSome whitelist host

/-- **The address embeds a blocked host** outside the whitelist. -/
def EmbedsBlocked (whitelist : List Network) (a : Address) : Prop :=
  (∃ host ∈ (hosts a).tail, InSome blocked host) ∧ ¬ ∃ host ∈ hosts a, InSome whitelist host

instance (whitelist : List Network) (a : Address) : Decidable (EmbedsBlocked whitelist a) := by
  unfold EmbedsBlocked; infer_instance

/-- The guard reads the text right. -/
def Readable (text : List Char) : Prop :=
  ∀ a, denote text = some a → a.version = .v6 → ':' ∉ zoneOf text ∧ ReadRight text

theorem hosts_eq (a : Address) : hosts a = a :: (hosts a).tail := by
  obtain ⟨version, value⟩ := a
  cases version <;> rfl

theorem inSome_eq (h : Exact text a) (networks : List Network) :
    inSome text (networks.map cidrOf) = .ok (decide (InSome networks a)) := by
  unfold inSome
  induction networks with
  | nil => rfl
  | cons n networks ih =>
    have hcons : InSome (n :: networks) a ↔ n.Contains a ∨ InSome networks a := by
      exact exists_mem_cons_iff ..
    rw [map_cons, anyM_cons, h n, ok_bind]
    by_cases hn : n.Contains a
    · rw [decide_eq_true hn, decide_eq_true (hcons.mpr (Or.inl hn))]
      rfl
    · have hrest : InSome (n :: networks) a ↔ InSome networks a := by
        rw [hcons]
        exact or_iff_right hn
      rw [decide_eq_false hn, decide_eq_decide.mpr hrest]
      exact ih

theorem parseIp_of_denote (h : denote text = some a) (hread : Readable text) :
    parseIp text = .ok (some ⟨a.value, a.version⟩) := by
  rcases denote_cases h with ⟨h4, rfl⟩ | ⟨h4, h6, rfl⟩
  · exact parseIp_v4 h4
  · obtain ⟨hcolon, hright⟩ := hread _ h rfl
    rw [parseIp_v6 h4 h6, (read_iff h6 hcolon).mpr hright]
    rfl

/-- **What the guard says of an address** that it reads right. -/
theorem isPrivateIp_eq (whitelist : List Network) (h : denote text = some a)
    (hread : Readable text) : isPrivateIp (whitelist.map cidrOf) text =
      .ok (decide (InSome blocked a ∧ ¬ InSome whitelist a)) := by
  have hexact : Exact text a := (exact_iff h fun hversion => (hread a h hversion).1).mpr
    fun hversion => (hread a h hversion).2
  unfold isPrivateIp
  rw [inSome_eq hexact, ok_bind]
  by_cases hlisted : InSome whitelist a
  · simp [hlisted]
  · simp only [hlisted, decide_false, Bool.false_eq_true, if_false]
    rw [parseIp_of_denote h hread, ok_bind, blockedNetworks_eq]
    rw [inSome_eq hexact]
    simp

theorem denotesBlocked_iff (h : ¬ (InSome blocked a ∧ ¬ InSome whitelist a)) :
    DenotesBlocked whitelist a ↔ EmbedsBlocked whitelist a := by
  refine and_congr_left fun hlisted => ?_
  rw [hosts_eq a, exists_mem_cons_iff, tail_cons]
  refine or_iff_right fun hblocked => h ⟨hblocked, fun hself => hlisted ⟨a, ?_, hself⟩⟩
  rw [hosts_eq a]
  exact mem_cons_self

/-! ### One URL -/

/-- The texts that a host stands for: itself where it is an address, and else the answers of the resolver. -/
def resolved (env : Env) (host : List Char) : List (List Char) :=
  if (denote host).isSome then [host] else env.lookup host

/-- The addresses that a URL resolves to. -/
def Resolves (env : Env) (url text : List Char) : Prop :=
  ∃ parsed, env.parseUrl url = some parsed ∧ text ∈ resolved env (normalizeHost parsed.hostname)

/-- **The URL is let through.** -/
def LetThrough (env : Env) (whitelist : List Network) (url : List Char) : Prop :=
  ∃ reason, validateUrlTarget env (whitelist.map cidrOf) url = .ok (true, reason)

/-- **No address of the URL denotes a blocked host.** -/
def Safe (env : Env) (whitelist : List Network) (url : List Char) : Prop :=
  ∀ text a, Resolves env url text → denote text = some a → ¬ DenotesBlocked whitelist a

theorem isIP_eq (text : List Char) : isIP text = (denote text).map (·.version) := by
  unfold isIP denote
  split_ifs <;> rfl

theorem parseIp_none (h : denote text = none) : parseIp text = .ok none := by
  unfold parseIp
  rw [isIP_eq, h]
  rfl

theorem parseIp_isSome {parsed : Option Parsed} (h : denote text = some a)
    (hparse : parseIp text = .ok parsed) : parsed.isSome = true := by
  rcases denote_cases h with ⟨h4, rfl⟩ | ⟨h4, h6, rfl⟩
  · rw [parseIp_v4 h4] at hparse
    rw [← ok.inj hparse]
    rfl
  · rw [parseIp_v6 h4 h6] at hparse
    obtain ⟨value, -, hvalue⟩ := bind_eq_ok.mp hparse
    rw [← ok.inj hvalue]
    rfl

theorem addressesOf_eq {env : Env} {host : List Char} {texts : List (List Char)}
    (h : addressesOf env host = .ok texts) : texts = resolved env host := by
  obtain ⟨parsed, hparse, h⟩ := bind_eq_ok.mp h
  unfold resolved
  cases hdenote : denote host with
  | none =>
    rw [parseIp_none hdenote] at hparse
    rw [← ok.inj hparse] at h
    exact (ok.inj h).symm
  | some a =>
    have hsome := parseIp_isSome hdenote hparse
    obtain ⟨parsed, rfl⟩ := isSome_iff_exists.mp hsome
    exact (ok.inj h).symm

theorem firstPrivate_none {whitelist : List Cidr} : ∀ {texts : List (List Char)},
    firstPrivate whitelist texts = .ok none → ∀ text ∈ texts, isPrivateIp whitelist text = .ok false
  | [], _ => nofun
  | text :: texts, h => by
    obtain ⟨isPrivate, hprivate, h⟩ := bind_eq_ok.mp h
    cases isPrivate with
    | true => cases h
    | false =>
      intro t ht
      rcases mem_cons.mp ht with rfl | ht
      · exact hprivate
      · exact firstPrivate_none h t ht

theorem letThrough_parts {env : Env}
    (h : LetThrough env whitelist url) : ∀ text, Resolves env url text →
      isPrivateIp (whitelist.map cidrOf) text = .ok false := by
  obtain ⟨reason, h⟩ := h
  rintro text ⟨parsed, hparsed, htext⟩
  unfold validateUrlTarget at h
  rw [hparsed] at h
  simp only at h
  by_cases hprotocol : parsed.protocol ∉ ["http:", "https:"]
  · rw [if_pos hprotocol] at h
    cases h
  rw [if_neg hprotocol] at h
  by_cases hhost : parsed.hostname = []
  · rw [if_pos hhost] at h
    cases h
  rw [if_neg hhost] at h
  obtain ⟨texts, htexts, h⟩ := bind_eq_ok.mp h
  rw [addressesOf_eq htexts] at h
  by_cases hnone : resolved env (normalizeHost parsed.hostname) = []
  · rw [if_pos hnone] at h
    cases h
  rw [if_neg hnone] at h
  obtain ⟨address, haddress, h⟩ := bind_eq_ok.mp h
  cases address with
  | some address => cases h
  | none => exact firstPrivate_none haddress text htext

/-- No address of the URL embeds a blocked host. -/
def NoneEmbedded (env : Env) (whitelist : List Network) (url : List Char) : Prop :=
  ∀ text a, Resolves env url text → denote text = some a → ¬ EmbedsBlocked whitelist a

/-- An embedded host is one that the address denotes. -/
theorem noneEmbedded_of_safe {env : Env} (h : Safe env whitelist url) : NoneEmbedded env whitelist url := by
  rintro text a htext hdenote ⟨⟨host, hhost, hblocked⟩, hlisted⟩
  exact h text a htext hdenote ⟨⟨host, mem_of_mem_tail hhost, hblocked⟩, hlisted⟩

/-- **A URL that is let through reaches no blocked host** when its addresses are read right and none of them
embeds one. -/
theorem safe_of_letThrough {env : Env}
    (h : LetThrough env whitelist url) (hread : ∀ text, Resolves env url text → Readable text)
    (hnone : NoneEmbedded env whitelist url) : Safe env whitelist url := by
  intro text a htext hdenote
  have hpassed := letThrough_parts h text htext
  rw [isPrivateIp_eq whitelist hdenote (hread text htext)] at hpassed
  rw [denotesBlocked_iff (of_decide_eq_false (ok.inj hpassed))]
  exact hnone text a htext hdenote

/-! ### Redirects and commands -/

/-- **Every URL that is fetched has been let through.** -/
theorem letThrough_of_fetched (env : Env) (web : Web) (whitelist : List Network) :
    ∀ (fuel : ℕ) (url : List Char), ∀ fetched ∈ (redirectsFrom env web (whitelist.map cidrOf) fuel url).1,
      LetThrough env whitelist fetched
  | 0, _ => nofun
  | fuel + 1, current => by
    intro fetched hfetched
    have hself : ∀ {reason}, validateUrlTarget env (whitelist.map cidrOf) current = .ok (true, reason) →
        fetched ∈ [current] → LetThrough env whitelist fetched := by
      intro reason hcurrent hmem
      rw [mem_singleton.mp hmem]
      exact ⟨reason, hcurrent⟩
    unfold redirectsFrom at hfetched
    split at hfetched
    · cases hfetched
    · cases hfetched
    · rename_i reason hcurrent
      simp only at hfetched
      by_cases hfinal : (web.fetch current).status < 300 ∨ 400 ≤ (web.fetch current).status
      · rw [if_pos hfinal] at hfetched
        exact hself hcurrent hfetched
      · rw [if_neg hfinal] at hfetched
        split at hfetched
        · exact hself hcurrent hfetched
        · split at hfetched
          · exact hself hcurrent hfetched
          · split at hfetched
            · exact hself hcurrent hfetched
            · exact hself hcurrent hfetched
            · rcases mem_cons.mp hfetched with rfl | hrest
              · exact ⟨reason, hcurrent⟩
              · exact letThrough_of_fetched env web whitelist fuel _ fetched hrest

theorem anyM_eq_false {α : Type} {p : α → Except String Bool} : ∀ {l : List α},
    l.anyM p = .ok false → ∀ x ∈ l, p x = .ok false
  | [], _ => nofun
  | x :: l, h => by
    obtain ⟨found, hfound, h⟩ := bind_eq_ok.mp h
    cases found with
    | true => cases h
    | false =>
      intro y hy
      rcases mem_cons.mp hy with rfl | hy
      · exact hfound
      · exact anyM_eq_false h y hy

variable {command : List Char}

/-- **A command that passes has no URL that is not let through.** -/
theorem letThrough_of_command {env : Env}
    (h : containsInternalUrl env (whitelist.map cidrOf) command = .ok false) :
    ∀ url ∈ urlsIn command, LetThrough env whitelist url := by
  intro url hurl
  obtain ⟨⟨ok, reason⟩, hvalidate, hok⟩ := bind_eq_ok.mp (anyM_eq_false h url hurl)
  cases ok with
  | true => exact ⟨reason, hvalidate⟩
  | false => cases hok

/-- The host of the URL is an address. -/
def Literal (env : Env) (url : List Char) : Prop :=
  ∃ parsed, env.parseUrl url = some parsed ∧ (denote (normalizeHost parsed.hostname)).isSome = true

/-- **The check of literal addresses blocks what the other does,** where the parser gives the scheme that the
URLs of a command have. -/
theorem sync_of_literal {env : Env}
    (hscheme : ∀ url ∈ urlsIn command, ∀ parsed, env.parseUrl url = some parsed →
      parsed.protocol ∈ ["http:", "https:"])
    (hurl : url ∈ urlsIn command) (hliteral : Literal env url) (h : ¬ LetThrough env whitelist url) :
    containsInternalUrlSync env (whitelist.map cidrOf) command = true := by
  obtain ⟨parsed, hparsed, hsome⟩ := hliteral
  obtain ⟨a, ha⟩ := isSome_iff_exists.mp hsome
  refine any_eq_true.mpr ⟨url, hurl, ?_⟩
  by_contra hpassed
  refine h ?_
  have hblocked : urlBlocked env (whitelist.map cidrOf) url = .ok false := by
    cases hblock : urlBlocked env (whitelist.map cidrOf) url with
    | error e => rw [hblock] at hpassed; exact absurd rfl hpassed
    | ok found =>
      rw [hblock] at hpassed
      cases found with
      | true => exact absurd rfl hpassed
      | false => rfl
  unfold urlBlocked at hblocked
  rw [hparsed] at hblocked
  obtain ⟨literal, hparse, hblocked⟩ := bind_eq_ok.mp hblocked
  obtain ⟨value, rfl⟩ := isSome_iff_exists.mp (parseIp_isSome ha hparse)
  replace hblocked : isPrivateIp (whitelist.map cidrOf) (normalizeHost parsed.hostname) = .ok false := hblocked
  have hne : parsed.hostname ≠ [] := by
    intro hnil
    have hdenote : denote (normalizeHost []) = none := by decide
    rw [hnil, hdenote] at ha
    cases ha
  refine ⟨"", ?_⟩
  unfold validateUrlTarget
  rw [hparsed]
  simp only
  rw [if_neg (not_not.mpr (hscheme url hurl parsed hparsed)), if_neg hne]
  unfold addressesOf
  rw [hparse]
  simp only [ok_bind, pure_eq]
  unfold firstPrivate
  rw [hblocked]
  rfl

/-! ### The parts together -/

/-- **What the guard blocks.** The test of a text is exact just where the text is read right; of the URLs that
are let through just those reach a blocked host that have an address with one embedded, where the addresses
are read right; what is fetched or run has been let through; and the check of literal addresses blocks what
the other does. -/
theorem guard_iff (env : Env) (whitelist : List Network) :
    (∀ text a, denote text = some a → (a.version = .v6 → ':' ∉ zoneOf text) →
      (Exact text a ↔ (a.version = .v6 → ReadRight text))) ∧
    (∀ url, LetThrough env whitelist url →
      (Safe env whitelist url → NoneEmbedded env whitelist url) ∧
      ((∀ text, Resolves env url text → Readable text) →
        (Safe env whitelist url ↔ NoneEmbedded env whitelist url))) ∧
    (∀ web url, ∀ fetched ∈ (getWithSafeRedirects env web (whitelist.map cidrOf) url).1,
      LetThrough env whitelist fetched) ∧
    (∀ command, containsInternalUrl env (whitelist.map cidrOf) command = .ok false →
      ∀ url ∈ urlsIn command, LetThrough env whitelist url) ∧
    (∀ command, (∀ url ∈ urlsIn command, ∀ parsed, env.parseUrl url = some parsed →
        parsed.protocol ∈ ["http:", "https:"]) →
      ∀ url ∈ urlsIn command, Literal env url → ¬ LetThrough env whitelist url →
        containsInternalUrlSync env (whitelist.map cidrOf) command = true) :=
  ⟨fun _ _ h hcolon => exact_iff h hcolon,
    fun _ h => ⟨noneEmbedded_of_safe,
      fun hread => ⟨noneEmbedded_of_safe, safe_of_letThrough h hread⟩⟩,
    fun web url => letThrough_of_fetched env web whitelist (maxRedirects + 1) url,
    fun _ h => letThrough_of_command h,
    fun _ hscheme _ hurl hliteral h => sync_of_literal hscheme hurl hliteral h⟩

namespace Example

/-- The parser writes the mapped loopback address in hexadecimal; the resolver is not asked. -/
def env : Env where
  parseUrl _ := some ⟨"http:", "[::ffff:7f00:1]".toList⟩
  lookup _ := []

/-- **The mapped loopback address is let through,** and its dotted text is tested wrongly. -/
theorem loopback_letThrough :
    (LetThrough env [] "http://[::ffff:127.0.0.1]/".toList ∧
      ¬ Safe env [] "http://[::ffff:127.0.0.1]/".toList) ∧
    denote "::ffff:127.0.0.1".toList = some ⟨.v6, 0xffff7f000001⟩ ∧
      ¬ Exact "::ffff:127.0.0.1".toList ⟨.v6, 0xffff7f000001⟩ := by
  have hhost : denote "::ffff:7f00:1".toList = some ⟨.v6, 0xffff7f000001⟩ := by decide +kernel
  have hdotted : denote "::ffff:127.0.0.1".toList = some ⟨.v6, 0xffff7f000001⟩ := by decide +kernel
  refine ⟨⟨⟨"", by decide +kernel⟩, fun hsafe => ?_⟩, hdotted, fun hexact => ?_⟩
  · refine hsafe "::ffff:7f00:1".toList ⟨.v6, 0xffff7f000001⟩ ⟨_, rfl, ?_⟩ hhost ⟨?_, ?_⟩
    · have hresolved : resolved env (normalizeHost "[::ffff:7f00:1]".toList) = ["::ffff:7f00:1".toList] := by
        decide +kernel
      exact mem_cons_self
    · exact ⟨⟨.v4, 0x7f000001⟩, by decide +kernel, ⟨.v4, 0x7f000000, 8⟩, by decide, by decide +kernel⟩
    · rintro ⟨host, -, n, hn, -⟩
      cases hn
  · have hself := hexact ⟨.v6, 0xffff7f000001, 128⟩
    exact absurd (ok.inj hself) (by decide +kernel)

end Example

end Memmy.Security.UrlGuard
