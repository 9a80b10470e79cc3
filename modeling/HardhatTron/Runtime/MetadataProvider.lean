import HardhatTron.Tre.ServingContainer
/-!
# Who answers `hardhat_metadata`

Only a local TRE should: upgrades-core keeps the manifest of a network that
answers the method in a temporary directory. A url is taken for local if its host
is a name of this machine or begins with `127.`, as a DNS name may.

`answers_local_iff`: the provider answers for local hosts only, but where a name
begins so; `dns_name_answered` is one.
-/
namespace HardhatTron

open Lib

/-! ## Local urls -/

def isLoopbackHost (host : List Char) : Bool :=
  host == "localhost".toList || host == "::1".toList || host == "[::1]".toList || host == "0.0.0.0".toList ||
    host == "::".toList || host == "[::]".toList || startsWith127 host

structure RpcRequest (J : Type) where
  method : String
  params : J

structure HardhatMetadata where
  clientVersion : String
  chainId : Option Nat
  instanceId : String

/-- `new URL(url).hostname`, `none` where the url does not parse; the containers
this process launched, by url; the wrapped provider; `[]` as parameters; the number
in an answer to `eth_chainId`; and `instanceId`. -/
structure ProviderEnv (J : Type) where
  hostname : String → Option (List Char)
  launched : String → Option String
  wrapped : Option (RpcRequest J) → Except String J
  noParams : J
  parseChainId : J → Option Nat
  instanceId : String → Except String String

variable {J : Type}

def isLocalTre (env : ProviderEnv J) (networkUrl : String) : Bool :=
  (env.launched networkUrl).isSome || (env.hostname networkUrl).any isLoopbackHost

/-! ## The provider -/

/-- What becomes of a request: the provider answers it, or the wrapped one does. -/
inductive ProviderAnswer (J : Type) where
  | metadata (answer : Except String HardhatMetadata)
  | forwarded (args : Option (RpcRequest J)) (reply : Except String J)

def _metadata (env : ProviderEnv J) (url : String) : Except String HardhatMetadata := do
  let chainHex ← env.wrapped (some ⟨"eth_chainId", env.noParams⟩)
  let instanceId ← env.instanceId url
  return ⟨"hardhat-tron", env.parseChainId chainHex, instanceId⟩

def asksMetadata : Option (RpcRequest J) → Bool
  | none => false
  | some args => args.method == "hardhat_metadata"

/-- `TronMetadataProvider.request` -/
def TronMetadataProvider.request (env : ProviderEnv J) (url : String) (args : Option (RpcRequest J)) :
    ProviderAnswer J :=
  if asksMetadata args && isLocalTre env url then .metadata (_metadata env url) else .forwarded args (env.wrapped args)

/-! ## The hosts that are local -/

/-- A dotted address in 127.0.0.0/8. -/
def LoopbackIPv4 (host : List Char) : Prop :=
  ∃ a b c, a < 256 ∧ b < 256 ∧ c < 256 ∧
    host = "127.".toList ++ Nat.toDigits 10 a ++ '.' :: (Nat.toDigits 10 b ++ '.' :: Nat.toDigits 10 c)

/-- The host is this machine. -/
inductive LocalHost : List Char → Prop
  | localhost : LocalHost "localhost".toList
  | unspecified4 : LocalHost "0.0.0.0".toList
  | unspecified6 : LocalHost "::".toList
  | unspecified6' : LocalHost "[::]".toList
  | loopback6 : LocalHost "::1".toList
  | loopback6' : LocalHost "[::1]".toList
  | loopback4 {host} (h : LoopbackIPv4 host) : LocalHost host

def LocalUrl (env : ProviderEnv J) (url : String) : Prop := ∃ host, env.hostname url = some host ∧ LocalHost host

/-- The provider answers for a local url only, and passes any other request on as it is. -/
def AnswersLocal (env : ProviderEnv J) (url : String) (args : Option (RpcRequest J)) : Prop :=
  (∀ answer, TronMetadataProvider.request env url args = .metadata answer → LocalUrl env url) ∧
  (¬LocalUrl env url → TronMetadataProvider.request env url args = .forwarded args (env.wrapped args))

/-- A name that begins like a loopback address. -/
def LooksLocal (env : ProviderEnv J) (url : String) : Prop :=
  ∃ host, env.hostname url = some host ∧ "127.".toList <+: host ∧ ¬LoopbackIPv4 host

theorem LoopbackIPv4.startsWith127 {host : List Char} (h : LoopbackIPv4 host) : "127.".toList <+: host := by
  obtain ⟨a, b, c, -, -, -, rfl⟩ := h
  rw [List.append_assoc]
  exact List.prefix_append _ _

/-- A dotted address has only digits and dots. -/
theorem LoopbackIPv4.mem {host : List Char} (h : LoopbackIPv4 host) {x : Char} (hx : x ∈ host) :
    x = '.' ∨ x.isDigit = true := by
  obtain ⟨a, b, c, -, -, -, rfl⟩ := h
  have hdigit : ∀ {n : Nat}, x ∈ Nat.toDigits 10 n → x.isDigit = true :=
    fun hmem => Nat.isDigit_of_mem_toDigits (by decide) (by decide) hmem
  have hprefix : ∀ y ∈ "127.".toList, (y == '.' || y.isDigit) = true := List.all_eq_true.1 (by decide)
  rcases List.mem_append.1 hx with hx | hx
  · rcases List.mem_append.1 hx with hx | hx
    · simpa using hprefix x hx
    · exact .inr (hdigit hx)
  · rcases List.mem_cons.1 hx with rfl | hx
    · exact .inl rfl
    · rcases List.mem_append.1 hx with hx | hx
      · exact .inr (hdigit hx)
      · rcases List.mem_cons.1 hx with rfl | hx
        · exact .inl rfl
        · exact .inr (hdigit hx)

theorem isLoopbackHost_iff {host : List Char} : isLoopbackHost host = true ↔ LocalHost host ∨ "127.".toList <+: host := by
  have hprefix : startsWith127 host = true ↔ "127.".toList <+: host := List.isPrefixOf_iff_prefix
  unfold isLoopbackHost
  simp only [Bool.or_eq_true, beq_iff_eq, hprefix]
  constructor
  · rintro ((((((rfl | rfl) | rfl) | rfl) | rfl) | rfl) | h)
    · exact .inl .localhost
    · exact .inl .loopback6
    · exact .inl .loopback6'
    · exact .inl .unspecified4
    · exact .inl .unspecified6
    · exact .inl .unspecified6'
    · exact .inr h
  · rintro (hlocal | h)
    · cases hlocal with
      | loopback4 h => exact .inr h.startsWith127
      | _ => simp
    · exact .inr h

section
variable {env : ProviderEnv J} {url : String} {args : Option (RpcRequest J)}

theorem isLocalTre_iff (hnot : env.launched url = none) :
    isLocalTre env url = true ↔ LocalUrl env url ∨ LooksLocal env url := by
  unfold isLocalTre LocalUrl LooksLocal
  rw [hnot, Option.isSome_none, Bool.false_or, Option.any_eq_true]
  constructor
  · rintro ⟨host, hhost, hloop⟩
    rcases isLoopbackHost_iff.1 hloop with hlocal | hprefix
    · exact .inl ⟨host, hhost, hlocal⟩
    · by_cases hdotted : LoopbackIPv4 host
      · exact .inl ⟨host, hhost, .loopback4 hdotted⟩
      · exact .inr ⟨host, hhost, hprefix, hdotted⟩
  · rintro (⟨host, hhost, hlocal⟩ | ⟨host, hhost, hprefix, -⟩)
    · exact ⟨host, hhost, isLoopbackHost_iff.2 (.inl hlocal)⟩
    · exact ⟨host, hhost, isLoopbackHost_iff.2 (.inr hprefix)⟩

/-- A name is no local host. -/
theorem LooksLocal.not_localUrl (h : LooksLocal env url) : ¬LocalUrl env url := by
  obtain ⟨host, hhost, hprefix, hname⟩ := h
  rintro ⟨host', hhost', hlocal⟩
  obtain rfl : host = host' := Option.some.inj (hhost.symm.trans hhost')
  cases hlocal with
  | loopback4 hdotted => exact hname hdotted
  | _ =>
    -- the other names do not begin with `127.`
    exact absurd hprefix (by decide)

/-- **Local hosts.** For a url that this process did not launch, the provider answers
`hardhat_metadata` for local hosts only, and passes on the rest, exactly if the host
is not a name that begins with `127.`. -/
theorem answers_local_iff (hnot : env.launched url = none) :
    AnswersLocal env url args ↔ (asksMetadata args = true → ¬LooksLocal env url) := by
  unfold AnswersLocal TronMetadataProvider.request
  cases hasks : asksMetadata args with
  | false => simp
  | true =>
    rw [Bool.true_and]
    constructor
    · -- a name that looks local is answered
      rintro ⟨honly, -⟩ - hlooks
      rw [if_pos ((isLocalTre_iff hnot).2 (.inr hlooks))] at honly
      exact hlooks.not_localUrl (honly _ rfl)
    · intro hcond
      have hlocal : isLocalTre env url = true ↔ LocalUrl env url := by
        rw [isLocalTre_iff hnot]
        exact or_iff_left (hcond rfl)
      refine ⟨?_, ?_⟩
      · intro answer hanswer
        by_cases h : isLocalTre env url = true
        · exact hlocal.1 h
        · rw [if_neg h] at hanswer
          cases hanswer
      · intro hurl
        rw [if_neg fun h => hurl (hlocal.1 h)]

end

/-! ## A local node and a public one -/

/-- The host of a url without a user. -/
def plainHostname (url : String) : Option (List Char) :=
  match url.toList.splitOn '/' with
  | _ :: [] :: authority :: _ => some (authority.takeWhile (· != ':'))
  | _ => none

/-- A node without `hardhat_metadata`, found in no container. -/
def stubEnv : ProviderEnv (List Char) where
  hostname := plainHostname
  launched _ := none
  wrapped args :=
    if args.any fun a => a.method == "eth_chainId" then .ok "0xcd8690dc".toList
    else .error "the method does not exist/is not available"
  noParams := "[]".toList
  parseChainId chainHex := if chainHex = "0xcd8690dc".toList then some 0xcd8690dc else none
  instanceId _ := .ok "0x0000000000000000c93baa76a4a508f798a96f59156d9eb17ecede8ec845df2f"

def metadataRequest : Option (RpcRequest (List Char)) := some ⟨"hardhat_metadata", "[]".toList⟩

/-- The request of a loopback url. -/
theorem loopback_answers_local : AnswersLocal stubEnv "http://127.0.0.1:19771/jsonrpc" metadataRequest := by
  apply (answers_local_iff rfl).2
  rintro - ⟨host, hhost, -, hname⟩
  cases hhost
  exact hname ⟨0, 0, 1, by decide, by decide, by decide, rfl⟩

/-- The request of a public url whose host is a name. -/
theorem dns_name_answered :
    ¬ ∀ (env : ProviderEnv (List Char)) url args, env.launched url = none → AnswersLocal env url args := by
  intro hall
  have hlocal := (hall stubEnv "https://127.example.com/jsonrpc" metadataRequest rfl).1 _ rfl
  have hlooks : LooksLocal stubEnv "https://127.example.com/jsonrpc" := by
    refine ⟨"127.example.com".toList, rfl, by decide, ?_⟩
    intro hdotted
    have := hdotted.mem (show 'e' ∈ "127.example.com".toList by decide)
    revert this
    decide
  exact hlooks.not_localUrl hlocal

end HardhatTron
