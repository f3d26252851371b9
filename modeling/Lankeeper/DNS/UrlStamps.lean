import Mathlib.Data.List.TakeDrop
import Mathlib.Data.Nat.Digits.Defs
import Lankeeper.DNS.DoH

/-!
# Lankeeper.DNS.UrlStamps — the stamp of an `https://` URL

`httpsURLToStamp` of `internal/services/doh.go` writes the stamp that dnscrypt-proxy is
given for a URL. A field of a stamp has at most 127 bytes, and the rest is cut off. The
port stands in the address field, which is empty for a host that is no address.

`url_stamp_iff`: the stamp has the host, the path and the port of the URL exactly if the
host and the path fit and the port is 443 or the host an address. The path is that of
`url.URL`, without percent-encoding; the validator looks at no other.
-/

namespace Lankeeper.DNS

open Lib Text Address List

/-! ## Reading a stamp -/

/-- The port that an address field gives: what follows its last colon, unless that stands in
brackets, and 443 without one. -/
def addressPort (address : Text) : Text :=
  let port := address.rtakeWhile (· ≠ ':')
  if ':' ∈ address ∧ ']' ∉ port then port else "443"

/-- The port of a stamp. -/
def stampPort (raw : Bytes) : Option Text :=
  (readLP raw 9).toOption.map fun field => addressPort (ofBytes field.1)

/-- The port of a URL. -/
def URL.dialed (u : URL) : Text :=
  if u.port = [] then "443" else u.port

/-- The stamp of the URL stands for its host, its path and its port. -/
def SameUpstream (env : DoHEnv) (spec : Text) (u : URL) : Prop :=
  ∃ stamp raw, httpsURLToStamp env spec = some stamp ∧ Base64.decode (stampBody stamp) = some raw ∧
    decodeDoHStamp raw = .ok (u.hostname, u.path) ∧ stampPort raw = some u.dialed

/-! ## Fields -/

variable {t : Text}

/-- What is left of a text of ASCII in a field. -/
theorem ofBytes_toBytes_take (h : ∀ c ∈ t, c.toNat < 128) (n : Nat) :
    ofBytes ((toBytes t).take n) = t.take n := by
  have hbytes : toBytes t = t.map fun c => UInt8.ofNat c.toNat := by
    have hone : ∀ c ∈ t, String.utf8EncodeChar c = [UInt8.ofNat c.toNat] := by
      intro c hc
      have hle : c.toNat ≤ 127 := Nat.le_of_lt_succ (h c hc)
      simp [String.utf8EncodeChar, hle]
    rw [toBytes, flatMap_congr hone]
    exact map_eq_flatMap.symm
  rw [hbytes, ← map_take]
  exact ofBytes_ascii fun c hc => h c (mem_of_mem_take hc)

/-- The decoder gives what the fields have room for. -/
theorem decode_fields {head : Bytes} (hhead : head.length = 9) (address host path : Bytes) :
    decodeDoHStamp (head ++ writeLP address ++ [0] ++ writeLP host ++ writeLP path) =
      .ok (ofBytes (host.take 127), rooted (ofBytes (path.take 127))) ∧
    stampPort (head ++ writeLP address ++ [0] ++ writeLP host ++ writeLP path) =
      some (addressPort (ofBytes (address.take 127))) := by
  have hcut : ∀ field : Bytes, writeLP field = writeLP (field.take 127) := by
    intro field
    simp [writeLP, take_take]
  have hlen : ∀ field : Bytes, (field.take 127).length ≤ 0x7f := fun field => length_take_le _ _
  rw [hcut address, hcut host, hcut path]
  constructor
  · refine decodeDoHStamp_ok_iff.mpr
      ⟨⟨address.take 127, [[]], host.take 127, path.take 127, []⟩, ?_, rfl, rfl⟩
    have hlayout := @layout_writeLP _ _ _ _ [] _ hhead (hlen address) (hlen host) (hlen path)
      (.inr ⟨rfl, by rintro ⟨fields, r, ⟨⟩⟩⟩)
    rwa [append_nil] at hlayout
  · have hlp := lp_writeLP (hlen address) ([0] ++ writeLP (host.take 127) ++ writeLP (path.take 127))
    rw [← @drop_left' _ head (_ ++ _) 9 hhead] at hlp
    obtain ⟨next, hread, -⟩ := hlp.readLP
    simp only [append_assoc] at hread ⊢
    rw [stampPort, hread]
    rfl

/-! ## The address -/

theorem isDoHHost_chars (h : isDoHHost t) : ':' ∉ t ∧ ∀ c ∈ t, c.toNat < 128 := by
  simp only [isDoHHost, Bool.and_eq_true, all_eq_true, Bool.or_eq_true, beq_iff_eq] at h
  have hchars := h.1.1.2
  refine ⟨fun hc => absurd (hchars ':' hc) (by decide), fun c hc => ?_⟩
  rcases hchars c hc with (halpha | rfl) | rfl
  · exact Nat.lt_of_le_of_lt (toNat_le_of_isAlphanum halpha) (by decide)
  · decide
  · decide

theorem isDoHPath_chars (h : isDoHPath t) : ['/'] <+: t ∧ ∀ c ∈ t, c.toNat < 128 := by
  unfold isDoHPath at h
  split at h
  · refine ⟨⟨_, rfl⟩, forall_mem_cons.mpr ⟨by decide, fun c hc => ?_⟩⟩
    rcases Bool.or_eq_true_iff.mp (all_eq_true.mp h c hc) with halpha | hmark
    · exact Nat.lt_of_le_of_lt (toNat_le_of_isAlphanum halpha) (by decide)
    · have hall : "._~/-%".toList.all (·.toNat < 128) = true := by decide
      exact of_decide_eq_true (all_eq_true.mp hall c (contains_iff_mem.mp hmark))
  · cases h

theorem mem_dotted {a : Nat} {c : Char} (h : c ∈ dotted a) : c.isDigit = true ∨ c = '.' := by
  rcases mem_intercalate h with hdot | ⟨w, hw, hc⟩
  · exact Or.inr hdot
  · simp only [mem_cons, not_mem_nil, or_false] at hw
    rcases hw with rfl | rfl | rfl | rfl <;> exact Or.inl (decimal_no_separator hc)

theorem length_dotted_le (a : Nat) : (dotted a).length ≤ 15 := by
  have hoctet : ∀ n : Nat, (decimal ((n % 256 : Nat) : Int)).length ≤ 3 := fun n =>
    Nat.toDigits_length 10 (n % 256) 3 (by decide) (by omega)
  have h₁ := hoctet (a / 16777216)
  have h₂ := hoctet (a / 65536)
  have h₃ := hoctet (a / 256)
  have h₄ := hoctet a
  simp only [dotted, List.intercalate, List.intersperse, flatten_cons, flatten_nil, length_append,
    length_cons, length_nil]
  omega

/-- The port of an address; that of a name is lost. -/
theorem addressPort_stampAddress {host port : Text} (hhost : isDoHHost host)
    (hport : port ∈ ["443".toList, "4443".toList, "8443".toList]) :
    addressPort (ofBytes ((toBytes (stampAddress host port)).take 127)) =
      if (parseIP host).isSome then port else "443".toList := by
  unfold stampAddress
  rcases hip : parseIP host with _ | ⟨f, n⟩
  · rfl
  rcases parseIP_cases hip with ⟨rfl, -⟩ | ⟨-, hcolon⟩
  · have hsome : asIPv4 (.ip4, n) = some (n &&& 0xffffffff) := rfl
    simp only [hsome, Option.isSome_some, if_true, ipText]
    generalize n &&& 0xffffffff = m
    have hnot : ∀ c, c.isDigit = false → c ≠ '.' → c ∉ dotted m := by
      intro c hc hdot hmem
      rcases mem_dotted hmem with hd | rfl
      · cases hc.symm.trans hd
      · exact hdot rfl
    have hascii : ∀ c ∈ dotted m, c.toNat < 128 := by
      intro c hc
      rcases mem_dotted hc with hd | rfl
      · exact Nat.lt_of_le_of_lt (Char.isDigit_iff_toNat.mp hd).2 (by decide)
      · decide
    have hports : ∀ p ∈ ["443".toList, "4443".toList, "8443".toList],
        (':' :: p).all (·.toNat < 128) ∧ p.length ≤ 4 ∧ ':' ∉ p ∧ ']' ∉ p := by decide
    obtain ⟨hpascii, hplen, hpcolon, hpbracket⟩ := hports port hport
    have hlen : (dotted m ++ ':' :: port).length ≤ 127 := by
      have := length_dotted_le m
      rw [length_append, length_cons]
      omega
    rw [joinHostPort, if_neg (not_or.mpr ⟨hnot _ (by decide) (by decide),
      hnot _ (by decide) (by decide)⟩), ofBytes_toBytes_take (forall_mem_append.mpr
      ⟨hascii, by simpa using hpascii⟩), take_of_length_le hlen]
    -- nothing behind the colon is one
    rw [addressPort, rtakeWhile_ne hpcolon, if_pos ⟨mem_append_right _ mem_cons_self, hpbracket⟩]
  · exact absurd hcolon (isDoHHost_chars hhost).1

/-! ## The round trip -/

/-- **URLs as stamps.** Every URL that is accepted becomes a stamp. The stamp has its host, its path
and its port exactly if the host and the path have at most 127 bytes, and the port is 443 or the
host an address. -/
theorem url_stamp_iff (env : DoHEnv) {spec : Text} {u : URL} (hparse : env.parseURL spec = some u)
    (hacc : validateHTTPSUpstream env spec = .ok ()) :
    (httpsURLToStamp env spec).isSome ∧ (SameUpstream env spec u ↔
      u.hostname.length ≤ 127 ∧ u.path.length ≤ 127 ∧
        (u.dialed = "443".toList ∨ (parseIP u.hostname).isSome)) := by
  simp only [validateHTTPSUpstream, hparse, bind_ok_iff, failIf_ok_iff, exists_const, not_not,
    not_or] at hacc
  obtain ⟨hscheme, hhost, hpath, ⟨hnonempty, -⟩, ⟨⟩, hport, -⟩ := hacc
  have hdialed : u.dialed ∈ ["443".toList, "4443".toList, "8443".toList] := by
    unfold URL.dialed
    split_ifs with hnone
    · exact mem_cons_self
    · rw [checkIf, if_pos hnone] at hport
      exact not_not.mp (failIf_ok hport)
  have hstamp : httpsURLToStamp env spec = some (sdnsScheme ++ Base64.encode
      (0x02 :: List.replicate 8 0 ++ writeLP (toBytes (stampAddress u.hostname u.dialed)) ++ [0x00] ++
        writeLP (toBytes u.hostname) ++ writeLP (toBytes u.path))) := by
    unfold httpsURLToStamp
    rw [hparse]
    show (if u.scheme ≠ "https".toList then none else _) = _
    rw [if_neg (not_not.mpr hscheme), if_neg hnonempty]
    rfl
  have hbody : ∀ bs, stampBody (sdnsScheme ++ Base64.encode bs) = Base64.encode bs := by
    intro bs
    rw [stampBody, trimPrefix, if_pos (prefix_append _ _), drop_left, rdropWhile_eq_self_iff]
    intro hne heq
    have hdigit := Base64.mem_encode _ (getLast_mem hne)
    rw [eq_of_beq heq] at hdigit
    cases hdigit
  obtain ⟨hslash, hascii⟩ := isDoHPath_chars hpath
  have hrooted : rooted (u.path.take 127) = u.path.take 127 := by
    obtain ⟨rest, hrest⟩ := hslash
    exact if_pos (by rw [← hrest]; exact ⟨rest.take 126, rfl⟩)
  rcases @decode_fields (0x02 :: List.replicate 8 0) rfl
      (toBytes (stampAddress u.hostname u.dialed)) (toBytes u.hostname) (toBytes u.path) with
    ⟨hdecode, hdecodePort⟩
  rw [ofBytes_toBytes_take (isDoHHost_chars hhost).2, ofBytes_toBytes_take hascii, hrooted] at hdecode
  rw [addressPort_stampAddress hhost hdialed] at hdecodePort
  refine ⟨by rw [hstamp]; rfl, ?_⟩
  have hsame : SameUpstream env spec u ↔ u.hostname.take 127 = u.hostname ∧
      u.path.take 127 = u.path ∧
      (if (parseIP u.hostname).isSome then u.dialed else "443".toList) = u.dialed := by
    unfold SameUpstream
    rw [hstamp]
    constructor
    · rintro ⟨stamp, raw, hs, hraw, hok, hp⟩
      cases hs
      rw [hbody, Base64.decode_encode] at hraw
      cases hraw
      rw [hdecode] at hok
      rw [hdecodePort] at hp
      have hpair := Prod.mk.inj (Except.ok.inj hok)
      exact ⟨hpair.1, hpair.2, Option.some.inj hp⟩
    · rintro ⟨hh, hp, hd⟩
      refine ⟨_, _, rfl, by rw [hbody, Base64.decode_encode], ?_, ?_⟩
      · rw [hdecode, hh, hp]
      · rw [hdecodePort, hd]
  rw [hsame, take_eq_self_iff, take_eq_self_iff]
  refine and_congr_right fun _ => and_congr_right fun _ => ?_
  split_ifs with hip
  · exact iff_of_true rfl (.inr hip)
  · exact ⟨fun h => .inl h.symm, fun h => (h.resolve_right hip).symm⟩

/-- A router that knows one URL, of a host outside. -/
def knows (u : URL) : DoHEnv :=
  ⟨fun _ => some u, fun _ => some [(.ip4, 0x09090909)], some []⟩

theorem quad9_url_stamp : SameUpstream
    (knows ⟨"https", "9.9.9.9", "8443", "/dns-query"⟩)
    "https://9.9.9.9:8443/dns-query" ⟨"https", "9.9.9.9", "8443", "/dns-query"⟩ :=
  (url_stamp_iff _ rfl (by decide +kernel)).2.mpr
    ⟨by decide +kernel, by decide +kernel, .inr (by decide +kernel)⟩

/-- `https://dns.example:8443/dns-query`: the stamp stands for port 443. -/
def namedURL : URL :=
  ⟨"https", "dns.example", "8443", "/dns-query"⟩

theorem named_port_lost :
    validateHTTPSUpstream (knows namedURL) "https://dns.example:8443/dns-query" = .ok () ∧
    ∃ stamp raw, httpsURLToStamp (knows namedURL) "https://dns.example:8443/dns-query" =
        some stamp ∧ Base64.decode (stampBody stamp) = some raw ∧
      decodeDoHStamp raw = .ok ("dns.example".toList, "/dns-query".toList) ∧
      stampPort raw = some "443".toList ∧ namedURL.dialed = "8443" := by
  refine ⟨by decide +kernel, _, _, rfl, rfl, ?_, ?_, rfl⟩
  · decide +kernel
  · decide +kernel

end Lankeeper.DNS
