/-
The two address guards compared. The parsers of the browser worker are followed on the two
shapes that IPv6 text can have (`parseV6Body_shape`), and its matcher on the ranges that it
is given.
-/
import MilpbookLM.Research.BrowserAddresses

namespace MilpbookLM.Research

open Ip Fetch

/-! ## IPv4 text -/

theorem unbracket_legible {t : List Char} (h : Legible t) : unbracket t = t := by
  have hopen : t.head? ≠ some '[' := fun he => absurd (h '[' (List.mem_of_head? he)) (by decide)
  have hclose : t.getLast? ≠ some ']' := fun he => absurd (h ']' (List.mem_of_getLast? he)) (by decide)
  simp [unbracket, hopen, hclose]

theorem octetShaped_of {p : List Char} {d : Nat} (h : parseOctet p = some d) : octetShaped p = true ∧ number p = d := by
  unfold parseOctet at h
  split at h; · cases h
  next hne =>
  split at h; · cases h
  next hdigits =>
  split at h; · cases h
  next hlen =>
  split at h; · cases h
  split at h; · cases h
  next hle =>
  cases h
  have hpos : p.length ≠ 0 := fun h0 => hne (List.length_eq_zero_iff.1 h0)
  refine ⟨?_, rfl⟩
  simp only [octetShaped, Bool.and_eq_true, decide_eq_true_eq, number]
  exact ⟨⟨⟨by omega, by omega⟩, by simpa using hdigits⟩, decide_eq_true (Nat.le_of_not_lt hle)⟩

theorem octets_read : ∀ {ps : List (List Char)} {ds : List Nat}, ps.mapM parseOctet = some ds →
    ps.all octetShaped = true ∧ ps.map number = ds
  | [], ds, h => by cases h; exact ⟨rfl, rfl⟩
  | p :: ps, ds, h => by
    simp only [List.mapM_cons, bind, Option.bind_eq_some_iff, pure, Option.some.injEq] at h
    obtain ⟨d, hd, es, hes, rfl⟩ := h
    obtain ⟨hshaped, hnumber⟩ := octetShaped_of hd
    obtain ⟨hall, hmap⟩ := octets_read hes
    exact ⟨by rw [List.all_cons, hshaped, hall]; rfl, by rw [List.map_cons, hnumber, hmap]⟩

/-- **The worker reads IPv4 text as the fetch path does.** -/
theorem parseIpv4_eq {t : List Char} {n : Nat} (h : parseV4 t = some n) : parseIpv4 t = some n := by
  unfold parseV4 at h
  split at h
  · cases h
  · next hfour =>
    obtain ⟨ds, hds, rfl⟩ := Option.map_eq_some_iff.1 h
    obtain ⟨hall, hmap⟩ := octets_read hds
    have hfold : ∀ ps : List (List Char), ps.foldl (fun acc part => acc * 256 + number part) 0 =
        (ps.map number).foldl (fun acc d => acc * 256 + d) 0 := fun ps => by rw [List.foldl_map]
    simp only [parseIpv4]
    rw [if_neg (by simp [hall, Decidable.not_not.1 hfour]), hfold, hmap]
    rfl

/-! ## Groups -/

theorem hexGroup_eq (group : List Char) : hexGroup group = parseHextet group := by
  have hsome := hexValue_isSome group 0
  unfold hexGroup parseHextet
  by_cases hlen : group = [] ∨ group.length > 4
  · rw [if_pos hlen, if_neg fun hall => ?_]
    rcases hlen with rfl | hlen
    · simp at hall
    · omega
  · have hpos : group.length ≠ 0 := fun h0 => hlen (.inl (List.length_eq_zero_iff.1 h0))
    have hfour : group.length ≤ 4 := Nat.le_of_not_lt fun hgt => hlen (.inr hgt)
    rw [if_neg hlen, ← hsome]
    cases hv : hexValue 0 group with
    | some n => rw [if_pos ⟨by omega, hfour, rfl⟩]
    | none => simp

theorem foldl_groups : ∀ {groups : List Nat} (n : Nat), (∀ g ∈ groups, g < 65536) →
    groups.foldl (fun value group => value <<< 16 ||| group) n = groups.foldl (fun n d => n * 65536 + d) n
  | [], _, _ => rfl
  | g :: groups, n, h => by
    have hg : g < 2 ^ 16 := h g (by simp)
    rw [List.foldl_cons, List.foldl_cons, ← Nat.shiftLeft_add_eq_or_of_lt hg, Nat.shiftLeft_eq]
    exact foldl_groups _ fun g' hg' => h g' (by simp [hg'])

theorem joinGroups_eq {groups : List Nat} (h : ∀ g ∈ groups, g < 65536) : joinGroups groups = ofDigits 65536 groups :=
  foldl_groups 0 h

/-- Two octets of a dotted tail are a half of its address. -/
theorem tail_halves {p₀ p₁ p₂ p₃ : List Char} {v : Nat}
    (h : ([p₀, p₁, p₂, p₃].mapM parseOctet).map (ofDigits 256) = some v) :
    [p₀, p₁, p₂, p₃].all octetShaped = true ∧ number p₀ <<< 8 ||| number p₁ = v / 65536 % 65536 ∧
      number p₂ <<< 8 ||| number p₃ = v % 65536 := by
  obtain ⟨ds, hds, rfl⟩ := Option.map_eq_some_iff.1 h
  obtain ⟨hall, hmap⟩ := octets_read hds
  obtain ⟨-, hlt⟩ := mapM_lt (fun _ _ => parseOctet_lt) hds
  rw [← hmap] at hlt ⊢
  simp only [List.map_cons, List.map_nil, List.mem_cons, List.not_mem_nil, or_false, forall_eq_or_imp, forall_eq] at hlt
  obtain ⟨h₀, h₁, h₂, h₃⟩ := hlt
  rw [← Nat.shiftLeft_add_eq_or_of_lt (i := 8) h₁, ← Nat.shiftLeft_add_eq_or_of_lt (i := 8) h₃, Nat.shiftLeft_eq,
    Nat.shiftLeft_eq]
  refine ⟨hall, ?_, ?_⟩ <;> simp only [List.map_cons, List.map_nil, ofDigits, List.foldl_cons, List.foldl_nil] <;> omega

/-! ## The double colon -/

/-- What holds of the rest of a text holds with `front` before it. -/
abbrev before (front : List Char) (r : Option (List Char × List Char)) : Option (List Char × List Char) :=
  r.map fun (head, tail) => (front ++ head, tail)

theorem splitDouble_append {p : List Char} (h : ':' ∉ p) (t : List Char) :
    splitDouble (p ++ t) = before p (splitDouble t) := by
  induction p with
  | nil => simp [before]
  | cons c p ih =>
    simp only [List.mem_cons, not_or] at h
    have hc : c ≠ ':' := fun he => h.1 he.symm
    rw [List.cons_append, before]
    cases hrest : p ++ t with
    | nil =>
      obtain ⟨rfl, rfl⟩ := List.append_eq_nil_iff.1 hrest
      rfl
    | cons d rest =>
      rw [splitDouble, if_neg (by simp [hc]), ← hrest, ih h.2, before, Option.map_map]
      rfl

/-- A single colon is no double one. -/
theorem splitDouble_colon {t : List Char} (h : t.head? ≠ some ':') :
    splitDouble (':' :: t) = before [':'] (splitDouble t) := by
  cases t with
  | nil => rfl
  | cons c t =>
    rw [splitDouble, if_neg fun hc => h (by rw [hc.2]; rfl)]
    rfl

theorem head_joined {parts : List (List Char)} (h : ∀ p ∈ parts, Plain p) : (joined parts).head? ≠ some ':' := by
  cases parts with
  | nil => simp [joined]
  | cons p ps =>
    obtain ⟨hne, hcolon⟩ := h p (by simp)
    cases p with
    | nil => exact absurd rfl hne
    | cons c p =>
      rw [joined, List.intercalate_cons_cons_left, List.head?_cons]
      exact fun he => hcolon (by cases he; simp)

/-- In plain parts with colons between them is no double colon, and none begins at their end. -/
theorem splitDouble_joined {parts : List (List Char)} (h : ∀ p ∈ parts, Plain p) (hne : parts ≠ []) (t : List Char) :
    splitDouble (joined parts ++ t) = before (joined parts) (splitDouble t) := by
  induction parts with
  | nil => exact absurd rfl hne
  | cons p ps ih =>
    obtain ⟨-, hcolon⟩ := h p (by simp)
    have hps : ∀ q ∈ ps, Plain q := fun q hq => h q (by simp [hq])
    cases hcs : ps with
    | nil =>
      rw [joined, List.intercalate_singleton]
      exact splitDouble_append hcolon t
    | cons q qs =>
      have hne' : ps ≠ [] := by rw [hcs]; simp
      have hhead : (joined ps ++ t).head? ≠ some ':' := by
        rw [List.head?_append]
        have := head_joined hps
        cases hj : joined ps with
        | nil =>
          obtain ⟨hq, -⟩ := hps q (by rw [hcs]; simp)
          cases q with
          | nil => exact absurd rfl hq
          | cons c q => rw [hcs, joined, List.intercalate_cons_cons_left] at hj; cases hj
        | cons c j => rw [hj] at this; simpa using this
      rw [← hcs]
      have hjoin : joined (p :: ps) = p ++ ':' :: joined ps := by
        rw [joined, List.intercalate_cons_of_ne_nil hne']
        simp
      rw [hjoin, List.append_assoc, List.cons_append, splitDouble_append hcolon, splitDouble_colon hhead, ih hps hne']
      cases splitDouble t <;> simp [before]

theorem splitDouble_plain {parts : List (List Char)} (h : ∀ p ∈ parts, Plain p) : splitDouble (joined parts) = none := by
  by_cases hne : parts = []
  · rw [hne]
    rfl
  · have := splitDouble_joined h hne []
    rw [List.append_nil] at this
    rw [this]
    rfl

/-- **The worker finds the `::` of a text**, and no second one. -/
theorem splitDouble_double {hi lo : List (List Char)} (hhi : ∀ p ∈ hi, Plain p) (hlo : ∀ p ∈ lo, Plain p) :
    splitDouble (joined hi ++ ':' :: ':' :: joined lo) = some (joined hi, joined lo) ∧
      splitDouble (':' :: joined lo) = none := by
  constructor
  · by_cases hne : hi = []
    · subst hne
      simp [joined, splitDouble]
    · rw [splitDouble_joined hhi hne]
      simp [splitDouble, before]
  · rw [splitDouble_colon (head_joined hlo), splitDouble_plain hlo]
    rfl

/-! ## Dotted tails -/

/-- A dotted tail, if there is one, is `0.x.0.y` with `x` and `y` below ten. -/
def SmallTail (parts : List (List Char)) : Prop :=
  ∀ last v, parts.getLast? = some last → '.' ∈ last → parseV4 last = some v →
    v / 65536 % 65536 < 10 ∧ v % 65536 < 10

/-- A number written in decimal is read as itself in hexadecimal if it has one digit. -/
theorem parseHextet_decimal {n m : Nat} (h : parseHextet (Nat.toDigits 10 n) = some m) : m = n ↔ n < 10 := by
  unfold parseHextet at h
  split at h
  · cases h
  · obtain ⟨k, hk, -, hiff⟩ := hexValue_toDigits 10 (by omega) (by omega) n
    rw [hk] at h
    cases h
    simpa using hiff

theorem parseHextet_digit {n : Nat} (h : n < 10) : parseHextet (Nat.toDigits 10 n) = some n := by
  obtain ⟨k, hk, -, hiff⟩ := hexValue_toDigits 10 (by omega) (by omega) n
  rw [parseHextet, if_neg (by rw [Nat.toDigits_of_lt_base h]; simp), hk, hiff.2 (.inl h)]

theorem expandTail_dotted (init : List (List Char)) {last : List Char} {v : Nat} (hdot : '.' ∈ last)
    (hv : parseV4 last = some v) : expandTail (init ++ [last]) =
      some (init ++ [Nat.toDigits 10 (v / 65536 % 65536), Nat.toDigits 10 (v % 65536)]) := by
  unfold parseV4 at hv
  split at hv
  · cases hv
  · next hfour =>
    obtain ⟨p₀, p₁, p₂, p₃, hparts⟩ : ∃ p₀ p₁ p₂ p₃, last.splitOn '.' = [p₀, p₁, p₂, p₃] :=
      List.length_eq_four.1 (Decidable.not_not.1 hfour)
    rw [hparts] at hv
    obtain ⟨hall, hhigh, hlow⟩ := tail_halves hv
    unfold expandTail
    rw [List.getLast?_append, List.getLast?_singleton]
    simp only [Option.some_or]
    rw [if_pos hdot, hparts]
    simp only
    rw [if_pos hall, hhigh, hlow, List.dropLast_concat]

theorem expandTail_plain {parts : List (List Char)} (h : ∀ p, parts.getLast? = some p → '.' ∉ p) :
    expandTail parts = some parts := by
  unfold expandTail
  split
  · rfl
  · next last hlast => rw [if_neg (h last hlast)]

/-- What `expand` does is what it does to the parts. -/
theorem expand_joined {parts : List (List Char)} (h : ∀ p ∈ parts, Plain p) :
    expand (joined parts) = (expandTail parts).bind (·.mapM parseHextet) := by
  have hgroup : hexGroup = parseHextet := funext hexGroup_eq
  unfold expand
  rw [hgroup]
  cases hps : parts with
  | nil => rfl
  | cons p ps =>
    have hne : joined parts ≠ [] := by
      obtain ⟨hp, -⟩ := h p (by rw [hps]; simp)
      cases p with
      | nil => exact absurd rfl hp
      | cons c p => rw [hps, joined, List.intercalate_cons_cons_left]; simp
    rw [← hps, if_neg hne, List.splitOn_intercalate ':' (fun q hq => (h q hq).2) (by rw [hps]; simp)]

/-- **The worker reads the parts on one side of `::` as the fetch path does if and only if a
dotted tail is small.** -/
theorem expand_spec {parts parts' : List (List Char)} {ns : List Nat} (h : ∀ p ∈ parts, Plain p)
    (hdotted : dottedTail parts = some parts') (hns : parts'.mapM parseHextet = some ns) :
    (SmallTail parts → expand (joined parts) = some ns) ∧
      ∀ gs, expand (joined parts) = some gs →
        gs.length = ns.length ∧ (∀ g ∈ gs, g < 65536) ∧ (gs = ns → SmallTail parts) := by
  rw [expand_joined h]
  obtain ⟨rfl, hplain⟩ | ⟨init, last, v, rfl, hdot, hv, rfl⟩ := dottedTail_cases hdotted
  · rw [expandTail_plain hplain, Option.bind_some, hns]
    refine ⟨fun _ => rfl, fun gs hgs => ?_⟩
    cases hgs
    exact ⟨rfl, (mapM_lt (fun _ _ => parseHextet_lt) hns).2,
      fun _ last v hlast hdot _ => absurd hdot (hplain last hlast)⟩
  · rw [expandTail_dotted init hdot hv, Option.bind_some]
    simp only [List.mapM_append, List.mapM_cons, List.mapM_nil, bind, Option.bind_eq_some_iff, pure,
      Option.some.injEq] at hns ⊢
    obtain ⟨is, his, es, ⟨a, ha, fs, ⟨b, hb, gs, rfl, rfl⟩, rfl⟩, rfl⟩ := hns
    rw [parseHextet_toDigits (by omega)] at ha hb
    cases ha
    cases hb
    have hsmall : SmallTail (init ++ [last]) ↔ v / 65536 % 65536 < 10 ∧ v % 65536 < 10 := by
      constructor
      · exact fun hs => hs last v (by simp) hdot hv
      · intro hs last' v' hlast' _ hv'
        rw [List.getLast?_append, List.getLast?_singleton] at hlast'
        cases hlast'
        cases hv.symm.trans hv'
        exact hs
    rw [hsmall]
    refine ⟨fun ⟨hhigh, hlow⟩ => ?_, ?_⟩
    · rw [his, parseHextet_digit hhigh, parseHextet_digit hlow]
      exact ⟨is, rfl, _, ⟨_, rfl, _, ⟨_, rfl, [], rfl, rfl⟩, rfl⟩, rfl⟩
    · rintro gs ⟨is', his', es', ⟨a', ha', fs', ⟨b', hb', gs', rfl, rfl⟩, rfl⟩, rfl⟩
      cases his.symm.trans his'
      refine ⟨by simp, ?_, fun heq => ?_⟩
      · intro g hg
        simp only [List.mem_append, List.mem_cons, List.not_mem_nil, or_false] at hg
        rcases hg with hg | rfl | rfl
        · exact (mapM_lt (fun _ _ => parseHextet_lt) his).2 g hg
        · exact parseHextet_lt ha'
        · exact parseHextet_lt hb'
      · have htwo := List.append_cancel_left heq
        simp only [List.cons.injEq, and_true] at htwo
        exact ⟨(parseHextet_decimal ha').1 htwo.1, (parseHextet_decimal hb').1 htwo.2⟩

/-! ## IPv6 text -/

theorem groups_lt {hs ls : List Nat} (hhs : ∀ d ∈ hs, d < 65536) (hls : ∀ d ∈ ls, d < 65536) (k : Nat) :
    ∀ d ∈ hs ++ List.replicate k 0 ++ ls, d < 65536 := by
  intro d hd
  simp only [List.mem_append, List.mem_replicate] at hd
  rcases hd with (hd | ⟨-, rfl⟩) | hd
  · exact hhs d hd
  · omega
  · exact hls d hd

/-- The groups that `parseIpv6` puts together. -/
theorem assemble_some {first : Bool} {head tail : List Char} {hs ls : List Nat} (hhead : expand head = some hs)
    (htail : expand tail = some ls) (hhs : ∀ d ∈ hs, d < 65536) (hls : ∀ d ∈ ls, d < 65536)
    (hlen : hs.length + ls.length ≤ 8) (hfull : first = false → hs.length + ls.length = 8) :
    assemble first head tail = some (ofDigits 65536 (hs ++ List.replicate (8 - (hs.length + ls.length)) 0 ++ ls)) := by
  have hmissing : ((8 : Int) - hs.length - ls.length).toNat = 8 - (hs.length + ls.length) := by omega
  unfold assemble
  simp only [hhead, htail]
  rw [if_neg, if_neg (by omega), hmissing, joinGroups_eq (groups_lt hhs hls _)]
  rintro ⟨hf, hne⟩
  have := hfull (by simpa using hf)
  omega

theorem plain_of_hextets {ps : List (List Char)} {ns : List Nat} (h : ps.mapM parseHextet = some ns) :
    ∀ p ∈ ps, '.' ∉ p := by
  intro p hp hdot
  obtain ⟨n, hn⟩ := mapM_read h p hp
  exact absurd (parseHextet_digits hn '.' hdot) (by decide)

/-- Hextets on one side of `::` are read by both. -/
theorem expand_hextets {ps : List (List Char)} {ns : List Nat} (h : ∀ p ∈ ps, Plain p)
    (hns : ps.mapM parseHextet = some ns) : expand (joined ps) = some ns := by
  have hplain : ∀ p, ps.getLast? = some p → '.' ∉ p := fun p hp => plain_of_hextets hns p (List.mem_of_getLast? hp)
  rw [expand_joined h, expandTail_plain hplain]
  exact hns

theorem smallTail_padded (front lo : List (List Char)) : SmallTail (front ++ [] :: padded lo) ↔ SmallTail lo := by
  have hlast : (front ++ [] :: padded lo).getLast? = (padded lo).getLast? := by
    rw [List.getLast?_append, List.getLast?_cons]
    cases hp : (padded lo).getLast? with
    | none => exact absurd (List.getLast?_eq_none_iff.1 hp) (padded_ne_nil lo)
    | some p => simp
  unfold SmallTail
  rw [hlast]
  unfold padded
  split
  · next he =>
    subst he
    constructor
    · intro _ last v hl
      cases hl
    · intro _ last v hl hdot
      cases hl
      cases hdot
  · rfl

/-- **The worker reads IPv6 text as the fetch path does if and only if a dotted tail is small.** -/
theorem parseIpv6_iff {t : List Char} {n : Nat} (h : parseV6Body t = some n) :
    parseIpv6 t = some n ↔ SmallTail (t.splitOn ':') := by
  unfold parseIpv6
  rw [unbracket_legible (parseV6Body_legible h)]
  obtain ⟨parts', ns, hplain, hdotted, height, hns, hn⟩ |
    ⟨hi, lo, lo', hs, ls, heq, hhi, hlo, hdotted, hfew, hhs, hls, hn⟩ := parseV6Body_shape h
  · obtain ⟨hsmall, hgroups⟩ := expand_spec hplain hdotted hns
    have ht : joined (t.splitOn ':') = t := List.intercalate_splitOn ':'
    have hnone := splitDouble_plain hplain
    have hempty : expand [] = some [] := rfl
    obtain ⟨hlen, hlt⟩ := mapM_lt (fun _ _ => parseHextet_lt) hns
    rw [ht] at hsmall hgroups hnone
    simp only [hnone]
    constructor
    · intro hsome
      cases hgs : expand t with
      | none => simp [assemble, hgs] at hsome
      | some gs =>
        obtain ⟨hglen, hglt, hiff⟩ := hgroups gs hgs
        rw [assemble_some hgs hempty hglt (by simp) (by simp; omega) (by simp; omega)] at hsome
        refine hiff (ofDigits_inj hglen hglt hlt ?_)
        have hzero : 8 - gs.length = 0 := by omega
        simpa [hzero, hn] using hsome
    · intro hs
      rw [assemble_some (hsmall hs) hempty hlt (by simp) (by simp; omega) (by simp; omega), hn]
      have hzero : 8 - ns.length = 0 := by omega
      simp [hzero]
  · obtain ⟨hsmall, hgroups⟩ := expand_spec hlo hdotted hls
    have ht : t = joined hi ++ ':' :: ':' :: joined lo := by
      rw [← joined_double, ← heq]
      exact (List.intercalate_splitOn ':').symm
    obtain ⟨hdouble, hsecond⟩ := splitDouble_double hhi hlo
    have hhead := expand_hextets hhi hhs
    obtain ⟨hhlen, hhlt⟩ := mapM_lt (fun _ _ => parseHextet_lt) hhs
    obtain ⟨hllen, hllt⟩ := mapM_lt (fun _ _ => parseHextet_lt) hls
    rw [heq, smallTail_padded, ht]
    simp only [hdouble, hsecond]
    constructor
    · intro hsome
      cases hgs : expand (joined lo) with
      | none => simp [assemble, hhead, hgs] at hsome
      | some gs =>
        obtain ⟨hglen, hglt, hiff⟩ := hgroups gs hgs
        simp only [Option.isSome_none, Bool.false_eq_true, if_false] at hsome
        rw [assemble_some hhead hgs hhlt hglt (by omega) (fun hf => by cases hf), Option.some.injEq, hn, hglen, hllen,
          hhlen] at hsome
        have hlen : ∀ front : List Nat, (front ++ gs).length = (front ++ ls).length := by simp [hglen]
        exact hiff (List.append_cancel_left (ofDigits_inj (hlen _) (groups_lt hhlt hglt _) (groups_lt hhlt hllt _) hsome))
    · intro hs
      simp only [Option.isSome_none, Bool.false_eq_true, if_false]
      rw [assemble_some hhead (hsmall hs) hhlt hllt (by omega) (fun hf => by cases hf), hn, hhlen, hllen]

/-! ## Tables -/

theorem Range.has_network {width : Nat} (net : Network width) (reason : String) (n : Nat) :
    (⟨net.first, net.first + net.size - 1, reason⟩ : Range).has n = net.contains n := by
  have hpos : 0 < net.size := Nat.pow_pos (by omega)
  rw [Bool.eq_iff_iff, Network.contains_iff]
  simp only [Range.has, Bool.and_eq_true, decide_eq_true_eq]
  omega

/-- The ranges of IPv4 addresses are the networks that the fetch path refuses. -/
theorem classifyV4Number_none (n : Nat) : workerTables.classifyV4Number n = none ↔ ¬inAny ipv4Blocked n = true := by
  simp only [AddressTables.classifyV4Number, Option.map_eq_none_iff, List.find?_eq_none, workerTables,
    AddressTables.new, v4Ranges, List.mem_map, inAny, List.any_eq_true]
  constructor
  · rintro h ⟨net, hnet, hin⟩
    exact h _ ⟨_, ⟨net, hnet, rfl⟩, rfl⟩ (by rw [Range.has_network]; exact hin)
  · rintro h _ ⟨_, ⟨net, hnet, rfl⟩, rfl⟩ hin
    exact h ⟨net, hnet, by rw [← Range.has_network net]; exact hin⟩

/-- So are the ranges of IPv6 addresses: their bounds come back from decimal text. -/
theorem v6Ranges_none (n : Nat) :
    (workerTables.v6.find? (·.has n)).map Range.reason = none ↔ ¬inAny ipv6Blocked n = true := by
  simp only [Option.map_eq_none_iff, List.find?_eq_none, workerTables, AddressTables.new, v6Ranges, List.mem_map,
    inAny, List.any_eq_true, number]
  constructor
  · rintro h ⟨net, hnet, hin⟩
    refine h _ ⟨_, ⟨net, hnet, rfl⟩, rfl⟩ ?_
    simp only [Nat.ofDigitChars_ten_toDigits]
    rw [Range.has_network]
    exact hin
  · rintro h _ ⟨_, ⟨net, hnet, rfl⟩, rfl⟩ hin
    simp only [Nat.ofDigitChars_ten_toDigits] at hin
    exact h ⟨net, hnet, by rw [← Range.has_network net]; exact hin⟩

/-! ## Classification -/

/-- Networks that only `is_global` refuses. -/
def globalOnly : List (Network 128) := [cidr6 [0x64, 0xff9b, 1] 48, cidr6 [0x2001] 23, cidr6 [0x3fff] 20]

/-- What only the fetch path refuses: an IPv4 address of its table inside a 6to4 address or
inside what it takes for a Teredo one, and what only `is_global` refuses. -/
def FetchOnly (n : Nat) : Prop :=
  sixToFourBlock.contains n = true ∧ inAny ipv4Blocked (n / 2 ^ 80 % 2 ^ 32) = true ∨
    takenForTeredo.contains n = true ∧ inAny ipv4Blocked (2 ^ 32 - 1 - n % 2 ^ 32) = true ∨
    ¬takenForTeredo.contains n = true ∧ inAny globalOnly n = true ∧ ¬inAny privateExceptions6 n = true

/-- What the worker answers for an IPv6 address that it has read. -/
def workerClass (n : Nat) : Option String :=
  if 0xffff00000000 ≤ n ∧ n ≤ 0xffffffffffff then workerTables.classifyV4Number (n % 2 ^ 32)
  else (workerTables.v6.find? (·.has n)).map Range.reason

theorem workerClass_none (n : Nat) :
    workerClass n = none ↔ (mappedBlock.contains n = true → ¬inAny ipv4Blocked (n % 2 ^ 32) = true) ∧
      (¬mappedBlock.contains n = true → ¬inAny ipv6Blocked n = true) := by
  have hmapped : mappedBlock.contains n = true ↔ 0xffff00000000 ≤ n ∧ n ≤ 0xffffffffffff := by
    rw [Network.contains_iff]
    simp [mappedBlock, cidr6, Network.first, Network.size, ofDigits]
    omega
  unfold workerClass
  rw [hmapped]
  split
  · next h => simp [h, classifyV4Number_none]
  · next h => rw [v6Ranges_none]; simp [h]

/-- The forms and the networks that only the fetch path looks at are in no table of the worker. -/
theorem fetchOnly_apart {n : Nat}
    (h : sixToFourBlock.contains n = true ∨ takenForTeredo.contains n = true ∨ inAny globalOnly n = true) :
    ¬mappedBlock.contains n = true ∧ ¬nat64Block.contains n = true ∧ ¬inAny ipv6Blocked n = true := by
  simp only [inAny_iff, Network.contains_iff] at h ⊢
  simp [sixToFourBlock, takenForTeredo, globalOnly, mappedBlock, nat64Block, ipv6Blocked, cidr6, Network.first,
    Network.size, ofDigits] at h ⊢
  omega

theorem sixToFour_apart {n : Nat} (h : takenForTeredo.contains n = true ∨ inAny globalOnly n = true) :
    ¬sixToFourBlock.contains n = true := by
  simp only [inAny_iff, Network.contains_iff] at h ⊢
  simp [takenForTeredo, globalOnly, sixToFourBlock, cidr6, Network.first, Network.size, ofDigits] at h ⊢
  omega

/-- What `is_global` refuses beyond the tables and the forms. -/
theorem global_of_tables {n : Nat} (hmapped : ¬mappedBlock.contains n = true) (hsix : ¬sixToFourBlock.contains n = true)
    (hblocked : ¬inAny ipv6Blocked n = true) (hglobal : ¬inAny globalOnly n = true) :
    ¬inAny privateNetworks6 n = true := by
  simp only [inAny_iff, Network.contains_iff] at hmapped hsix hblocked hglobal ⊢
  simp [mappedBlock, sixToFourBlock, ipv6Blocked, globalOnly, privateNetworks6, cidr6, Network.first, Network.size,
    ofDigits] at hmapped hsix hblocked hglobal ⊢
  omega

theorem nat64_blocked {n : Nat} (h : nat64Block.contains n = true) : inAny ipv6Blocked n = true := by
  simp only [nat64Block] at h
  simp [inAny, ipv6Blocked, h]

theorem globalOnly_private {n : Nat} (h : inAny globalOnly n = true) : inAny privateNetworks6 n = true := by
  simp only [inAny, globalOnly, privateNetworks6, List.any_cons, List.any_nil, Bool.or_eq_true] at h ⊢
  rcases h with h | h | h | h <;> simp [h]

/-- What only the fetch path refuses, it refuses. -/
theorem fetchOnly_refused {n : Nat} (h : FetchOnly n) : classifyV6 classifyAddress n ≠ none := by
  rw [classifyV6_eq]
  rcases h with ⟨hsix, hblocked⟩ | ⟨htaken, hblocked⟩ | ⟨htaken, hglobal, hexcept⟩
  · obtain ⟨hmapped, hnat, -⟩ := fetchOnly_apart (.inl hsix)
    rw [if_neg hmapped, if_neg hnat, if_pos hsix, ne_eq, classifyAddress_v4Text (by omega)]
    exact fun hno => hno hblocked
  · obtain ⟨hmapped, hnat, -⟩ := fetchOnly_apart (.inr (.inl htaken))
    rw [if_neg hmapped, if_neg hnat, if_neg (sixToFour_apart (.inl htaken)), if_pos htaken, ne_eq,
      classifyAddress_v4Text (by omega)]
    exact fun hno => hno hblocked
  · obtain ⟨hmapped, hnat, htables⟩ := fetchOnly_apart (.inr (.inr hglobal))
    rw [if_neg hmapped, if_neg hnat, if_neg (sixToFour_apart (.inr hglobal)), if_neg htaken, if_neg htables, if_neg]
    · simp
    · rw [isGlobal6_iff]
      exact fun himp => hexcept (himp (globalOnly_private hglobal))

/-- **The worker refuses what the fetch path refuses, but for what only the fetch path knows.** -/
theorem workerClass_strict (n : Nat) :
    (classifyV6 classifyAddress n ≠ none → workerClass n ≠ none) ↔ ¬FetchOnly n := by
  constructor
  · intro hstrict hf
    have hapart : ¬mappedBlock.contains n = true ∧ ¬nat64Block.contains n = true ∧ ¬inAny ipv6Blocked n = true := by
      rcases hf with ⟨hsix, -⟩ | ⟨htaken, -⟩ | ⟨-, hglobal, -⟩
      · exact fetchOnly_apart (.inl hsix)
      · exact fetchOnly_apart (.inr (.inl htaken))
      · exact fetchOnly_apart (.inr (.inr hglobal))
    exact hstrict (fetchOnly_refused hf) ((workerClass_none n).2 ⟨fun hm => absurd hm hapart.1, fun _ => hapart.2.2⟩)
  · intro hno hrefused hworker
    obtain ⟨hv4, hv6⟩ := (workerClass_none n).1 hworker
    apply hrefused
    rw [classifyV6_eq]
    split
    · next hmapped => exact (classifyAddress_v4Text (by omega)).2 (hv4 hmapped)
    next hmapped =>
    have hblocked := hv6 hmapped
    split
    · next hnat => exact absurd (nat64_blocked hnat) hblocked
    split
    · next hsix => exact (classifyAddress_v4Text (by omega)).2 fun hb => hno (.inl ⟨hsix, hb⟩)
    next hsix =>
    split
    · next htaken => exact (classifyAddress_v4Text (by omega)).2 fun hb => hno (.inr (.inl ⟨htaken, hb⟩))
    next htaken =>
    rw [if_pos]
    rw [isGlobal6_iff]
    intro hprivate
    by_cases hglobal : inAny globalOnly n = true
    · exact Decidable.byContradiction fun hexcept => hno (.inr (.inr ⟨htaken, hglobal, hexcept⟩))
    · exact absurd hprivate (global_of_tables hmapped hsix hblocked hglobal)

/-! ## Literals -/

/-- Address text in standard form: `ipaddress` reads it, and it has no scope id. -/
def Standard (text : List Char) : Prop := (ipAddress text).isSome = true ∧ '%' ∉ text

theorem parseV4_no_colon {t : List Char} {n : Nat} (h : parseV4 t = some n) : ':' ∉ t := by
  unfold parseV4 at h
  split at h
  · cases h
  · obtain ⟨ds, hds, -⟩ := Option.map_eq_some_iff.1 h
    intro hcolon
    rw [← @List.intercalate_splitOn _ t _ _ '.'] at hcolon
    rcases mem_intercalate hcolon with hc | ⟨p, hp, hc⟩
    · exact absurd hc (by decide)
    · obtain ⟨d, hd⟩ := mapM_read hds p hp
      obtain ⟨hshaped, -⟩ := octetShaped_of hd
      simp only [octetShaped, Bool.and_eq_true] at hshaped
      exact absurd (List.all_eq_true.1 hshaped.1.2 ':' hc) (by decide)

theorem parseV6_body {t : List Char} {n : Nat} (h : parseV6 t = some n) (hscope : '%' ∉ t) : parseV6Body t = some n := by
  unfold parseV6 at h
  split at h
  · cases h
  · rw [List.splitOn_eq_singleton hscope] at h
    exact h

theorem parseV6Body_colon {t : List Char} {n : Nat} (h : parseV6Body t = some n) : ':' ∈ t := by
  unfold parseV6Body at h
  split at h
  · cases h
  · next hparts =>
    refine Decidable.byContradiction fun hno => hparts (.inr ?_)
    rw [List.splitOn_eq_singleton hno]
    simp

/-- The worker reads a text as the fetch path does, and refuses it if the fetch path does. -/
structure GuardsAgree (text : List Char) : Prop where
  v4 : ∀ n, ipAddress text = some (.v4 n) → parseIpv4 text = some n
  v6 : ∀ n, ipAddress text = some (.v6 n) → parseIpv6 text = some n
  strict : classifyAddress text ≠ none → workerTables.classifyLiteral text ≠ none

theorem classify_of_v4 {text : List Char} {n : Nat} (h : ipAddress text = some (.v4 n)) (ht : Legible text) :
    classifyAddress text = classifyV4 n := by
  rw [classifyAddress_eq, classifyStep, stripBrackets_legible ht, h]

theorem classify_of_v6 {text : List Char} {n : Nat} (h : ipAddress text = some (.v6 n)) (ht : Legible text) :
    classifyAddress text = classifyV6 classifyAddress n := by
  rw [classifyAddress_eq, classifyStep, stripBrackets_legible ht, h]

theorem guardsAgree_v4 {text : List Char} {n : Nat} (h : ipAddress text = some (.v4 n)) (hv : parseV4 text = some n) :
    GuardsAgree text := by
  have ht := parseV4_legible hv
  have hbare := unbracket_legible ht
  refine ⟨fun m hm => ?_, fun m hm => ?_, fun hrefused => ?_⟩
  · cases h.symm.trans hm
    exact parseIpv4_eq hv
  · cases h.symm.trans hm
  · rw [classify_of_v4 h ht, ne_eq, classifyV4_none] at hrefused
    simp only [AddressTables.classifyLiteral, hbare]
    rw [if_neg (parseV4_no_colon hv), parseIpv4_eq hv, ne_eq, classifyV4Number_none]
    exact hrefused

theorem guardsAgree_v6 {text : List Char} {n : Nat} (h : ipAddress text = some (.v6 n)) (hv : parseV6Body text = some n) :
    GuardsAgree text ↔ SmallTail (text.splitOn ':') ∧ ¬FetchOnly n := by
  have ht := parseV6Body_legible hv
  have hbare := unbracket_legible ht
  have hclass : parseIpv6 text = some n → workerTables.classifyLiteral text = workerClass n := by
    intro hparse
    simp only [AddressTables.classifyLiteral, hbare]
    rw [if_pos (parseV6Body_colon hv), hparse]
    rfl
  constructor
  · intro hagree
    have hparse := hagree.v6 n h
    have hstrict := hagree.strict
    rw [classify_of_v6 h ht, hclass hparse] at hstrict
    exact ⟨(parseIpv6_iff hv).1 hparse, (workerClass_strict n).1 hstrict⟩
  · rintro ⟨hsmall, hknown⟩
    have hparse := (parseIpv6_iff hv).2 hsmall
    refine ⟨fun m hm => ?_, fun m hm => ?_, ?_⟩
    · cases h.symm.trans hm
    · cases h.symm.trans hm
      exact hparse
    · rw [classify_of_v6 h ht, hclass hparse]
      exact (workerClass_strict n).2 hknown

/-- **The guards agree on address text if and only if it is IPv4, or IPv6 without a dotted
tail that is not small and not an address that only the fetch path refuses.** -/
theorem guards_agree {text : List Char} (h : Standard text) :
    GuardsAgree text ↔ ∀ n, ipAddress text = some (.v6 n) → SmallTail (text.splitOn ':') ∧ ¬FetchOnly n := by
  obtain ⟨hsome, hscope⟩ := h
  cases hv4 : parseV4 text with
  | some n =>
    have hip : ipAddress text = some (.v4 n) := by rw [ipAddress, hv4]
    refine ⟨fun _ m hm => ?_, fun _ => guardsAgree_v4 hip hv4⟩
    cases hip.symm.trans hm
  | none =>
    cases hv6 : parseV6 text with
    | none =>
      rw [ipAddress, hv4, hv6] at hsome
      cases hsome
    | some n =>
      have hip : ipAddress text = some (.v6 n) := by rw [ipAddress, hv4, hv6]; rfl
      rw [guardsAgree_v6 hip (parseV6_body hv6 hscope)]
      refine ⟨fun hok m hm => ?_, fun hall => hall n hip⟩
      cases hip.symm.trans hm
      exact hok

/-- On a public address without a dotted tail they do. -/
theorem guards_agree_public : GuardsAgree "2606:4700::1".toList := by
  rw [guards_agree (by unfold Standard; decide)]
  intro n hn
  have hvalue : ipAddress "2606:4700::1".toList = some (.v6 (0x26064700 * 2 ^ 96 + 1)) := by decide
  cases hvalue.symm.trans hn
  refine ⟨?_, by unfold FetchOnly; decide⟩
  intro last v hlast hdot
  cases (show ("2606:4700::1".toList.splitOn ':').getLast? = some ['1'] by decide).symm.trans hlast
  exact absurd hdot (by decide)

/-- A private address in dotted form, which the worker lets pass. -/
theorem mapped_private_passes : ¬∀ text, Standard text → GuardsAgree text := by
  intro h
  have hagree := h "::ffff:10.0.0.1".toList (by unfold Standard; decide)
  exact hagree.strict (by decide) (by decide)

end MilpbookLM.Research
