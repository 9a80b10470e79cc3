import HardhatTron.Lib.OrderedMap
/-!
# The container that serves a url

`docker inspect` prints a line for each container; `selectServingMatch` reads the
lines back and chooses the one container whose port bindings match the url.

`select_serving_iff`: it chooses the only one that matches, and the id of what it
returns is the one the owner of the container derives. A container without an id
or a start time is passed over, and the owner's id is of trimmed output:
`unidentified_passed_over`.
-/
namespace HardhatTron

open Lib

/-! ## What docker prints -/

structure PortBinding where
  HostIp : List Char
  HostPort : List Char

/-- `NetworkSettings.Ports`; a port that is not published has no bindings. -/
abbrev PortMap := OrderedMap String (Option (List PortBinding))

structure InspectedContainer where
  id : List Char
  startedAt : List Char
  name : List Char
  ports : PortMap

/-- The JSON of docker, `JSON.parse` on it, `JSON.stringify` on text, and the hex
digest of `crypto`. -/
structure InspectRuntime where
  portsJson : PortMap → List Char
  parsePorts : List Char → Option PortMap
  quote : List Char → String
  sha256 : List Char → List Char

/-- `{{.Id}}|{{.State.StartedAt}}|{{.Name}}|{{json .NetworkSettings.Ports}}` -/
def inspectLine (rt : InspectRuntime) (c : InspectedContainer) : List Char :=
  c.id ++ '|' :: (c.startedAt ++ '|' :: (c.name ++ '|' :: rt.portsJson c.ports))

/-- `{{.Id}}|{{.State.StartedAt}}` on a line of its own. -/
def identityOutput (c : InspectedContainer) : List Char := c.id ++ '|' :: (c.startedAt ++ ['\n'])

/-! ## The choice -/

def TRE_CONTAINER_PORT : String := "9090/tcp"

def stripBrackets (host : List Char) : List Char :=
  if host.head? = some '[' ∧ host.getLast? = some ']' then (host.drop 1).dropLast else host

/-- `/^127\./` -/
def startsWith127 (host : List Char) : Bool := "127.".toList.isPrefixOf host

def hostMatchesBinding (urlHost hostIp : List Char) : Bool :=
  let host := stripBrackets urlHost
  let ip := stripBrackets hostIp
  if ip = [] ∨ ip = "0.0.0.0".toList ∨ ip = "::".toList then true
  else if host = "localhost".toList ∨ host = "0.0.0.0".toList ∨ host = "::".toList then
    ip == "::1".toList || startsWith127 ip
  else ip == host

def bindsHostPort (ports : PortMap) (hostPort urlHost : List Char) : Bool :=
  ((ports.get? TRE_CONTAINER_PORT).join.getD []).any fun b =>
    b.HostPort == hostPort && hostMatchesBinding urlHost b.HostIp

structure ServingContainer where
  id : List Char
  startedAt : List Char
  name : List Char
  deriving DecidableEq

/-- `rawName.replace(/^\//, '')` -/
def plainName : List Char → List Char
  | '/' :: name => name
  | name => name

/-- What a line adds to the matches. -/
def matchOfLine (rt : InspectRuntime) (port host line : List Char) : Option ServingContainer :=
  match line.splitOn '|' with
  | id :: startedAt :: rawName :: p :: parts =>
    match rt.parsePorts (['|'].intercalate (p :: parts)) with
    | none => none
    | some ports =>
      if !id.isEmpty && !startedAt.isEmpty && bindsHostPort ports port host then
        some ⟨id, startedAt, plainName rawName⟩
      else none
  | _ => none

def multipleContainers (port : List Char) (networkUrl : String) (found : List ServingContainer) : String :=
  "[hardhat-tron] multiple containers publish port " ++ String.ofList port ++ " for " ++ networkUrl ++ ": " ++
    String.intercalate ", " (found.map fun m => String.ofList m.name ++ " (" ++ String.ofList (m.id.take 12) ++ ")") ++
    ". Cannot attribute the node to one of them; point the network url at the container's " ++
    "exact loopback address (e.g. http://127.0.0.1:" ++ String.ofList port ++
    ") or stop the containers you are not using."

def selectServingMatch (rt : InspectRuntime) (inspectLines : List (List Char)) (port host : List Char)
    (networkUrl : String) : Except String (Option ServingContainer) :=
  match inspectLines.filterMap (matchOfLine rt port host) with
  | [] => .ok none
  | [m] => .ok (some m)
  | found => .error (multipleContainers port networkUrl found)

/-! ## Its id -/

def hashContainerIdentity (rt : InspectRuntime) (id startedAt : List Char) : List Char :=
  '0' :: 'x' :: rt.sha256 (id ++ '|' :: startedAt)

/-- `text.includes('<no value>')` -/
def hasNoValue (text : List Char) : Bool := text.tails.any fun rest => "<no value>".toList.isPrefixOf rest

def validatedContainerIdentity (rt : InspectRuntime) (id startedAt : List Char) : Option (List Char) :=
  if id.isEmpty || startedAt.isEmpty || hasNoValue id || hasNoValue startedAt then none
  else some (hashContainerIdentity rt id startedAt)

/-- The characters that `trim` takes away. -/
def isWhiteSpace (c : Char) : Bool :=
  c.val == 0x20 || (0x9 ≤ c.val && c.val ≤ 0xd) || c.val == 0xa0 || c.val == 0x1680 ||
    (0x2000 ≤ c.val && c.val ≤ 0x200a) || c.val == 0x2028 || c.val == 0x2029 || c.val == 0x202f || c.val == 0x205f ||
    c.val == 0x3000 || c.val == 0xfeff

def trimOutput (text : List Char) : List Char :=
  ((text.dropWhile isWhiteSpace).reverse.dropWhile isWhiteSpace).reverse

/-- On the output of `docker inspect`, or the detail of its failure. -/
def containerInstanceId (rt : InspectRuntime) (inspected : Except String (List Char)) : Except String (List Char) :=
  match inspected with
  | .error detail => .error detail
  | .ok stdout =>
    let raw := trimOutput stdout
    let id :=
      match raw.dropWhile (· != '|') with
      | [] => none
      | _ :: startedAt => validatedContainerIdentity rt (raw.takeWhile (· != '|')) startedAt
    match id with
    | some id => .ok id
    | none => .error ("unexpected docker inspect output: " ++ rt.quote raw)

/-! ## The container that is meant -/

/-- The host of a url that names no interface. -/
def Unspecified (host : List Char) : Prop :=
  host = "localhost".toList ∨ host = "0.0.0.0".toList ∨ host = "::".toList

/-- A binding takes the requests for a host: it is on every interface, or on a
loopback address where the host names none, or on the address the host names. -/
def HostIpMatches (urlHost hostIp : List Char) : Prop :=
  (stripBrackets hostIp = [] ∨ stripBrackets hostIp = "0.0.0.0".toList ∨ stripBrackets hostIp = "::".toList) ∨
  (Unspecified (stripBrackets urlHost) ∧
    (stripBrackets hostIp = "::1".toList ∨ "127.".toList <+: stripBrackets hostIp)) ∨
  (¬Unspecified (stripBrackets urlHost) ∧ stripBrackets hostIp = stripBrackets urlHost)

section
variable (port host : List Char)

/-- It binds the host port for the host on the port of a TRE. -/
def Publishes (c : InspectedContainer) : Prop :=
  ∃ bindings b, c.ports.get? TRE_CONTAINER_PORT = some (some bindings) ∧ b ∈ bindings ∧ b.HostPort = port ∧
    HostIpMatches host b.HostIp

/-- It publishes the url, and has an id and a start time. -/
def Serves (c : InspectedContainer) : Prop := c.id ≠ [] ∧ c.startedAt ≠ [] ∧ Publishes port host c

def OnlyServing (cs : List InspectedContainer) (c : InspectedContainer) : Prop :=
  ∃ before after, cs = before ++ c :: after ∧ Serves port host c ∧ ∀ c' ∈ before ++ after, ¬Serves port host c'

def TwoServe (cs : List InspectedContainer) : Prop :=
  ∃ c c', [c, c'].Sublist cs ∧ Serves port host c ∧ Serves port host c'

end

/-- What is returned for it. -/
def InspectedContainer.found (c : InspectedContainer) : ServingContainer := ⟨c.id, c.startedAt, plainName c.name⟩

/-- Only the ports of its line may have a `|`, and they parse back. -/
structure Legible (rt : InspectRuntime) (c : InspectedContainer) : Prop where
  id : '|' ∉ c.id
  startedAt : '|' ∉ c.startedAt
  name : '|' ∉ c.name
  ports : rt.parsePorts (rt.portsJson c.ports) = some c.ports

/-- There is no white space that `trim` takes away, but for the line's end. -/
def Trimmed (c : InspectedContainer) : Prop :=
  (∀ x, c.id.head? = some x → isWhiteSpace x = false) ∧ ∀ x, c.startedAt.getLast? = some x → isWhiteSpace x = false

/-! ## Matching -/

section
variable {rt : InspectRuntime} {port host : List Char} {c : InspectedContainer} {cs : List InspectedContainer}

theorem hostMatchesBinding_iff {urlHost hostIp : List Char} :
    hostMatchesBinding urlHost hostIp = true ↔ HostIpMatches urlHost hostIp := by
  unfold hostMatchesBinding HostIpMatches Unspecified
  dsimp only
  split
  · -- on every interface
    rename_i hwild
    exact iff_of_true rfl (.inl hwild)
  · rename_i hwild
    split
    · -- the url names no interface
      rename_i hunspecified
      rw [Bool.or_eq_true, beq_iff_eq, startsWith127, List.isPrefixOf_iff_prefix]
      constructor
      · exact fun h => .inr (.inl ⟨hunspecified, h⟩)
      · rintro (h | ⟨-, h⟩ | ⟨h, -⟩)
        · exact absurd h hwild
        · exact h
        · exact absurd hunspecified h
    · -- it names an address
      rename_i hnamed
      rw [beq_iff_eq]
      constructor
      · exact fun h => .inr (.inr ⟨hnamed, h⟩)
      · rintro (h | ⟨h, -⟩ | ⟨-, h⟩)
        · exact absurd h hwild
        · exact absurd h hnamed
        · exact h

theorem bindsHostPort_iff : bindsHostPort c.ports port host = true ↔ Publishes port host c := by
  unfold bindsHostPort Publishes
  cases hget : c.ports.get? TRE_CONTAINER_PORT with
  | none => simp
  | some bindings =>
    cases bindings with
    | none => simp
    | some bindings => simp [hostMatchesBinding_iff]

/-- The test of a line. -/
def isServing (port host : List Char) (c : InspectedContainer) : Bool :=
  !c.id.isEmpty && !c.startedAt.isEmpty && bindsHostPort c.ports port host

theorem isServing_iff : isServing port host c = true ↔ Serves port host c := by
  unfold isServing Serves
  rw [Bool.and_eq_true, Bool.and_eq_true, bindsHostPort_iff, and_assoc]
  simp

/-- A line is split at its first three bars, whatever the JSON has. -/
theorem matchOfLine_inspectLine (hl : Legible rt c) :
    matchOfLine rt port host (inspectLine rt c) = if isServing port host c then some c.found else none := by
  have hline : (inspectLine rt c).splitOn '|' = c.id :: c.startedAt :: c.name :: (rt.portsJson c.ports).splitOn '|' := by
    rw [inspectLine, List.splitOn_append_cons_self_of_not_mem hl.id,
      List.splitOn_append_cons_self_of_not_mem hl.startedAt, List.splitOn_append_cons_self_of_not_mem hl.name]
  obtain ⟨p, parts, hsplit⟩ := List.exists_cons_of_ne_nil (List.splitOn_ne_nil '|' (rt.portsJson c.ports))
  have hjoin : ['|'].intercalate (p :: parts) = rt.portsJson c.ports := by
    rw [← hsplit, List.intercalate_splitOn]
  unfold matchOfLine
  rw [hline, hsplit]
  dsimp only
  rw [hjoin, hl.ports]
  rfl

theorem matches_eq (hl : ∀ c ∈ cs, Legible rt c) :
    (cs.map (inspectLine rt)).filterMap (matchOfLine rt port host) =
      (cs.filter (isServing port host)).map InspectedContainer.found := by
  induction cs with
  | nil => rfl
  | cons c cs ih =>
    have ih := ih fun c' hc' => hl c' (List.mem_cons_of_mem _ hc')
    rw [List.map_cons, List.filterMap_cons, matchOfLine_inspectLine (hl c (List.mem_cons_self ..)), List.filter_cons, ih]
    split <;> simp_all

theorem onlyServing_iff : OnlyServing port host cs c ↔ cs.filter (isServing port host) = [c] := by
  have hnone : ∀ l : List InspectedContainer, (∀ c' ∈ l, ¬Serves port host c') ↔ l.filter (isServing port host) = [] := by
    intro l
    simp [List.filter_eq_nil_iff, ← isServing_iff]
  rw [List.filter_eq_cons_iff]
  constructor
  · rintro ⟨before, after, rfl, hs, hothers⟩
    refine ⟨before, after, rfl, ?_, isServing_iff.2 hs, ?_⟩
    · intro c' hc'
      rw [isServing_iff]
      exact hothers c' (List.mem_append_left _ hc')
    · exact (hnone after).1 fun c' hc' => hothers c' (List.mem_append_right _ hc')
  · rintro ⟨before, after, rfl, hbefore, hs, hafter⟩
    refine ⟨before, after, rfl, isServing_iff.1 hs, ?_⟩
    intro c' hc'
    rcases List.mem_append.1 hc' with hc' | hc'
    · exact fun hs' => hbefore c' hc' (isServing_iff.2 hs')
    · exact (hnone after).2 hafter c' hc'

theorem twoServe_iff : TwoServe port host cs ↔ 2 ≤ (cs.filter (isServing port host)).length := by
  constructor
  · rintro ⟨c, c', hsub, hs, hs'⟩
    have hfilter := (hsub.filter (isServing port host)).length_le
    rw [List.filter_eq_self.2 (by simp [isServing_iff, hs, hs'])] at hfilter
    exact hfilter
  · intro hlen
    rcases hf : cs.filter (isServing port host) with _ | ⟨c, _ | ⟨c', rest⟩⟩
    · simp [hf] at hlen
    · simp [hf] at hlen
    · have hfront : [c, c'].Sublist (cs.filter (isServing port host)) := by
        rw [hf]
        exact ((List.nil_sublist rest).cons_cons c').cons_cons c
      have hserves : ∀ d ∈ [c, c'], Serves port host d := by
        intro d hd
        exact isServing_iff.1 (List.mem_filter.1 (hfront.subset hd)).2
      exact ⟨c, c', hfront.trans List.filter_sublist, hserves c (.head _), hserves c' (.tail _ (.head _))⟩

/-! ## The owner's id -/

theorem dropWhile_of_head {p : Char → Bool} {text : List Char} (h : ∀ x, text.head? = some x → p x = false) :
    text.dropWhile p = text := by
  cases text with
  | nil => rfl
  | cons x text => rw [List.dropWhile_cons, h x rfl, if_neg Bool.false_ne_true]

theorem trimOutput_identity (ht : Trimmed c) : trimOutput (identityOutput c) = c.id ++ '|' :: c.startedAt := by
  obtain ⟨hid, hstarted⟩ := ht
  -- the output begins with the id, or with the bar
  have hfront : (identityOutput c).dropWhile isWhiteSpace = identityOutput c := by
    apply dropWhile_of_head
    intro x hx
    unfold identityOutput at hx
    cases hc : c.id with
    | nil =>
      rw [hc] at hx
      cases hx
      rfl
    | cons y id =>
      rw [hc] at hx
      cases hx
      exact hid x (by rw [hc]; rfl)
  have hback : (identityOutput c).reverse = '\n' :: (c.id ++ '|' :: c.startedAt).reverse := by
    simp [identityOutput]
  -- before the line feed it ends with the start time, or with the bar
  have hlast : ∀ x, (c.id ++ '|' :: c.startedAt).reverse.head? = some x → isWhiteSpace x = false := by
    intro x hx
    rw [List.head?_reverse, List.getLast?_append, List.getLast?_cons] at hx
    cases hc : c.startedAt.getLast? with
    | none =>
      rw [hc] at hx
      cases hx
      rfl
    | some y =>
      rw [hc] at hx
      cases hx
      exact hstarted _ hc
  unfold trimOutput
  rw [hfront, hback, List.dropWhile_cons_of_pos rfl, dropWhile_of_head hlast, List.reverse_reverse]

/-- The first bar is the one after the id. -/
theorem containerInstanceId_identity (hid : '|' ∉ c.id) (ht : Trimmed c) :
    (containerInstanceId rt (.ok (identityOutput c))).toOption = validatedContainerIdentity rt c.id c.startedAt := by
  have hne : ∀ x ∈ c.id, (x != '|') = true := by
    intro x hx
    rw [bne_iff_ne]
    rintro rfl
    exact hid hx
  have hid' : (c.id ++ '|' :: c.startedAt).takeWhile (· != '|') = c.id := by
    rw [List.takeWhile_append_of_pos hne, List.takeWhile_cons_of_neg (by decide), List.append_nil]
  have hstarted : (c.id ++ '|' :: c.startedAt).dropWhile (· != '|') = '|' :: c.startedAt := by
    rw [List.dropWhile_append_of_pos hne, List.dropWhile_cons_of_neg (by decide)]
  simp only [containerInstanceId, trimOutput_identity ht, hid', hstarted]
  cases validatedContainerIdentity rt c.id c.startedAt <;> rfl

/-- **The serving container.** Of the lines of any containers, the one that is
chosen is the only one that serves the url, an error says that two do, and nothing
is chosen if none does. The id of what is chosen is the one its owner derives. -/
theorem select_serving_iff (hl : ∀ c ∈ cs, Legible rt c) (networkUrl : String) :
    (∀ m, selectServingMatch rt (cs.map (inspectLine rt)) port host networkUrl = .ok (some m) ↔
      ∃ c, OnlyServing port host cs c ∧ m = c.found) ∧
    ((∃ message, selectServingMatch rt (cs.map (inspectLine rt)) port host networkUrl = .error message) ↔
      TwoServe port host cs) ∧
    (selectServingMatch rt (cs.map (inspectLine rt)) port host networkUrl = .ok none ↔
      ∀ c ∈ cs, ¬Serves port host c) ∧
    ∀ c ∈ cs, Trimmed c →
      (containerInstanceId rt (.ok (identityOutput c))).toOption =
        validatedContainerIdentity rt c.found.id c.found.startedAt := by
  have hnone : (∀ c ∈ cs, ¬Serves port host c) ↔ cs.filter (isServing port host) = [] := by
    simp [List.filter_eq_nil_iff, ← isServing_iff]
  unfold selectServingMatch
  rw [matches_eq hl, twoServe_iff, hnone]
  simp only [onlyServing_iff]
  refine ⟨?_, ?_, ?_, fun c hc ht => containerInstanceId_identity (hl c hc).id ht⟩
  · intro m
    rcases cs.filter (isServing port host) with _ | ⟨c, _ | ⟨c', rest⟩⟩ <;> simp [eq_comm]
  · rcases cs.filter (isServing port host) with _ | ⟨c, _ | ⟨c', rest⟩⟩ <;> simp
  · rcases cs.filter (isServing port host) with _ | ⟨c, _ | ⟨c', rest⟩⟩ <;> simp

end

/-! ## Two nodes on one port -/

/-- The ports of a node on a loopback address, and their JSON. -/
def nodePorts (ip : List Char) : PortMap :=
  OrderedMap.empty.put TRE_CONTAINER_PORT (some [⟨ip, "9090".toList⟩])

def nodePortsJson (ip : List Char) : List Char :=
  "\x7b\"9090/tcp\":[\x7b\"HostIp\":\"".toList ++ ip ++ "\",\"HostPort\":\"9090\"\x7d]\x7d".toList

def nodeA : InspectedContainer where
  id := List.replicate 64 'a'
  startedAt := "2026-07-27T00:00:00.000000000Z".toList
  name := "/tre-a".toList
  ports := nodePorts "127.0.0.1".toList

def nodeB : InspectedContainer where
  id := List.replicate 64 'b'
  startedAt := "2026-07-27T00:00:00.000000000Z".toList
  name := "/tre-b".toList
  ports := nodePorts "127.0.0.2".toList

/-- The JSON of these ports, and SHA-256 on the identity of `nodeB`, with a space
at the end and without. -/
def nodeRuntime : InspectRuntime where
  portsJson ports :=
    match (ports.get? TRE_CONTAINER_PORT).join with
    | some [b] => nodePortsJson b.HostIp
    | _ => []
  parsePorts text :=
    if text = nodePortsJson "127.0.0.1".toList then some (nodePorts "127.0.0.1".toList)
    else if text = nodePortsJson "127.0.0.2".toList then some (nodePorts "127.0.0.2".toList)
    else none
  quote text := "\"" ++ String.ofList text ++ "\""
  sha256 text :=
    if text.getLast? = some ' ' then "52fa71c91e0c9a54952362e346398dc1b9dde4d352baad17ff1dc0b1cb51ec5a".toList
    else "859fccd411f69ce77d3efab255ed833a2dc2838cfdb7b31ee24fcf181689b87c".toList

theorem nodes_legible : ∀ c ∈ [nodeA, nodeB], Legible nodeRuntime c := by
  intro c hc
  rcases List.mem_cons.1 hc with rfl | hc
  · exact ⟨by decide, by decide, by decide, rfl⟩
  · cases List.mem_singleton.1 hc
    exact ⟨by decide, by decide, by decide, rfl⟩

/-- The second node is found by its address. -/
theorem select_serving_second :
    selectServingMatch nodeRuntime [inspectLine nodeRuntime nodeA, inspectLine nodeRuntime nodeB] "9090".toList
        "127.0.0.2".toList "http://127.0.0.2:9090/jsonrpc" =
      .ok (some ⟨nodeB.id, nodeB.startedAt, "tre-b".toList⟩) ∧
    (containerInstanceId nodeRuntime (.ok (identityOutput nodeB))).toOption =
      validatedContainerIdentity nodeRuntime nodeB.id nodeB.startedAt := by
  obtain ⟨hchosen, -, -, hid⟩ := select_serving_iff nodes_legible "http://127.0.0.2:9090/jsonrpc"
  refine ⟨(hchosen _).2 ⟨nodeB, ⟨[nodeA], [], rfl, isServing_iff.1 (by decide), ?_⟩, rfl⟩, hid nodeB (by simp) ?_⟩
  · intro c hc
    cases List.mem_singleton.1 hc
    rw [← isServing_iff]
    decide
  · refine ⟨fun x hx => ?_, fun x hx => ?_⟩
    · cases hx
      decide
    · cases hx
      decide

/-- A container without an id is passed over though it alone publishes the port,
and the id that the owner of a container derives is of trimmed text. -/
theorem unidentified_passed_over :
    (¬ ∀ (rt : InspectRuntime) cs port host networkUrl, (∀ c ∈ cs, Legible rt c) → ∀ c, cs = [c] →
      Publishes port host c →
      selectServingMatch rt (cs.map (inspectLine rt)) port host networkUrl = .ok (some c.found)) ∧
    ¬ ∀ (rt : InspectRuntime) c, Legible rt c →
      (containerInstanceId rt (.ok (identityOutput c))).toOption = validatedContainerIdentity rt c.id c.startedAt := by
  refine ⟨?_, ?_⟩
  · intro hall
    have hlegible : ∀ c ∈ [{ nodeB with id := [] }], Legible nodeRuntime c := by
      intro c hc
      cases List.mem_singleton.1 hc
      exact ⟨by decide, by decide, by decide, rfl⟩
    have hchosen := hall nodeRuntime [{ nodeB with id := [] }] "9090".toList "127.0.0.2".toList
      "http://127.0.0.2:9090/jsonrpc" hlegible _ rfl (bindsHostPort_iff.1 (by decide))
    have hnone : selectServingMatch nodeRuntime ([{ nodeB with id := [] }].map (inspectLine nodeRuntime)) "9090".toList
      "127.0.0.2".toList "http://127.0.0.2:9090/jsonrpc" = .ok none := rfl
    rw [hnone] at hchosen
    cases hchosen
  · intro hall
    have hlegible : Legible nodeRuntime { nodeB with startedAt := nodeB.startedAt ++ [' '] } :=
      ⟨by decide, by decide, by decide, rfl⟩
    have hid := hall _ _ hlegible
    revert hid
    decide

end HardhatTron
