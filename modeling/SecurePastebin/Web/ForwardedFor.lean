import SecurePastebin.Web.Http

/-!
# The address of the caller

Behind a trusted proxy the caller is named by `X-Forwarded-For`: every hop adds
the address it was reached from, at the end of the last line or as a further
line.  What `clientIP` makes of a request is compared with the last of the hops.
-/

namespace SecurePastebin.Web

open Text
open Paste (trimSpace)

variable {Address Network : Type}

/-- The peer is in one of the networks; `net/netip` is given. -/
def inNetworks (parseAddr : Bytes → Option Address) (contains : Network → Address → Bool)
    (networks : List Network) (host : Bytes) : Bool :=
  match parseAddr host with
  | none => false
  | some peer => networks.any (contains · peer)

/-- The host of a peer's address, or all of it if there is no port. -/
def peerHost (splitHostPort : Bytes → Option Bytes) (remoteAddr : Bytes) : Bytes :=
  (splitHostPort remoteAddr).getD remoteAddr

/-! ## Hops -/

def lineHops (line : Bytes) : List Bytes := (line.splitOn 44).map trimSpace

/-- The elements of all lines in order. -/
def hops (lines : List Bytes) : List Bytes := lines.flatMap lineHops

/-- The last hop that is not empty. -/
def lastHop (lines : List Bytes) : Option Bytes := ((hops lines).filter (· ≠ [])).getLast?

/-- What the header contributes: the last element of the first line. -/
def contributed (lines : List Bytes) : Bytes := (lineHops (lines.headD [])).getLastD []

/-- The last element of the first line is the last hop of all lines.  If it is
empty, there is no hop at all, or the last one is the peer itself. -/
def EndsWithLastHop (peer : Bytes) (lines : List Bytes) : Prop :=
  if contributed lines = [] then lastHop lines = none ∨ lastHop lines = some peer
  else lastHop lines = some (contributed lines)

theorem lineHops_getLastD (line : Bytes) :
    (lineHops line).getLastD [] = trimSpace ((line.splitOn 44).getLastD []) := by
  rw [lineHops, List.getLastD_eq_getLast?, List.getLastD_eq_getLast?, List.getLast?_map]
  cases (line.splitOn 44).getLast? <;> rfl

theorem contributed_mem_hops {lines : List Bytes} (hne : contributed lines ≠ []) :
    contributed lines ∈ hops lines := by
  cases lines with
  | nil => exact absurd (by decide +kernel) hne
  | cons line rest =>
      have hmem : contributed (line :: rest) ∈ lineHops line := by
        rw [contributed, List.headD_cons, List.getLastD_eq_getLast?] at hne ⊢
        cases hlast : (lineHops line).getLast? with
        | none => simp [hlast] at hne
        | some hop => exact List.mem_of_getLast? hlast
      exact List.mem_flatMap.mpr ⟨line, List.mem_cons_self, hmem⟩

theorem clientIP_of_trusted {trusted : Bytes → Bool} {r : Request}
    (htrusted : trusted r.remoteHost = true) :
    clientIP trusted r =
      if contributed r.forwardedFor = [] then r.remoteHost else contributed r.forwardedFor := by
  rw [clientIP, if_pos htrusted, ← lineHops_getLastD, ite_not]
  rfl

/-- Behind a trusted peer the address is the last hop, and that of the peer if
there is none, exactly if the first line ends with that hop. -/
theorem clientIP_eq_lastHop_iff {trusted : Bytes → Bool} {r : Request}
    (htrusted : trusted r.remoteHost = true) :
    clientIP trusted r = (lastHop r.forwardedFor).getD r.remoteHost ↔
      EndsWithLastHop r.remoteHost r.forwardedFor := by
  rw [clientIP_of_trusted htrusted, EndsWithLastHop]
  split_ifs with hempty
  · cases lastHop r.forwardedFor <;> simp [eq_comm]
  · cases hlast : lastHop r.forwardedFor with
    | some hop => simp [eq_comm]
    | none =>
        have hmem := contributed_mem_hops hempty
        rw [lastHop, List.getLast?_eq_none_iff, List.filter_eq_nil_iff] at hlast
        exact absurd hempty (by simpa using hlast _ hmem)

/-- Whatever is in the headers, an untrusted peer is its own address; behind a
trusted one, the address is the last hop, and the client has no say in it,
exactly if the first line ends with the hop the proxy has added. -/
theorem clientIP_not_steered (parseAddr : Bytes → Option Address)
    (contains : Network → Address → Bool) (networks : List Network)
    (splitHostPort : Bytes → Option Bytes) (remoteAddr : Bytes) (r : Request)
    (hpeer : r.remoteHost = peerHost splitHostPort remoteAddr) :
    (inNetworks parseAddr contains networks (peerHost splitHostPort remoteAddr) = false →
        clientIP (inNetworks parseAddr contains networks) r = peerHost splitHostPort remoteAddr) ∧
      (inNetworks parseAddr contains networks (peerHost splitHostPort remoteAddr) = true →
        (clientIP (inNetworks parseAddr contains networks) r =
            (lastHop r.forwardedFor).getD (peerHost splitHostPort remoteAddr) ↔
          EndsWithLastHop r.remoteHost r.forwardedFor) ∧
        ∀ r' : Request, r'.remoteHost = r.remoteHost →
          EndsWithLastHop r.remoteHost r.forwardedFor →
          EndsWithLastHop r'.remoteHost r'.forwardedFor →
          lastHop r'.forwardedFor = lastHop r.forwardedFor →
          clientIP (inNetworks parseAddr contains networks) r' =
            clientIP (inNetworks parseAddr contains networks) r) := by
  rw [← hpeer]
  constructor
  · intro huntrusted
    rw [clientIP, if_neg (by simp [huntrusted])]
  · intro htrusted
    refine ⟨clientIP_eq_lastHop_iff htrusted, fun r' hhost hends hends' hlast => ?_⟩
    rw [(clientIP_eq_lastHop_iff (hhost ▸ htrusted)).mpr hends',
      (clientIP_eq_lastHop_iff htrusted).mpr hends, hlast, hhost]

namespace Sample

/-- A request through the proxy 10.0.0.1 with the given lines. -/
def forwarded (lines : List String) : Request where
  method := .get
  target := ascii "/"
  escaped := by decide
  rawQuery := []
  cookie := none
  csrfToken := []
  accept := []
  remoteHost := ascii "10.0.0.1"
  forwardedFor := lines.map ascii
  body := .malformed

/-- Addresses are their texts, networks single addresses. -/
def proxies : Bytes → Bool :=
  inNetworks some (fun (network address : Bytes) => network == address) [ascii "10.0.0.1"]

end Sample

theorem clientIP_not_steered_sample :
    clientIP Sample.proxies (Sample.forwarded ["6.6.6.6, 1.2.3.4"]) = ascii "1.2.3.4" := by
  have hip := ((clientIP_not_steered some (fun (network address : Bytes) => network == address)
    [ascii "10.0.0.1"] (fun _ => some (ascii "10.0.0.1")) (ascii "10.0.0.1:4711")
    (Sample.forwarded ["6.6.6.6, 1.2.3.4"]) rfl).2 (by decide)).1.mpr (by
      rw [EndsWithLastHop]
      decide +kernel)
  rw [Sample.proxies, hip]
  decide +kernel

/-- The proxy adds a further line: the address is the one the client has put on
the first, and differs although the last hop does not. -/
theorem clientIP_steered :
    lastHop (Sample.forwarded ["6.6.6.6", "1.2.3.4"]).forwardedFor = some (ascii "1.2.3.4") ∧
      lastHop (Sample.forwarded ["7.7.7.7", "1.2.3.4"]).forwardedFor = some (ascii "1.2.3.4") ∧
      clientIP Sample.proxies (Sample.forwarded ["6.6.6.6", "1.2.3.4"]) = ascii "6.6.6.6" ∧
      clientIP Sample.proxies (Sample.forwarded ["7.7.7.7", "1.2.3.4"]) = ascii "7.7.7.7" := by
  refine ⟨by decide +kernel, by decide +kernel, by decide +kernel, by decide +kernel⟩

end SecurePastebin.Web
