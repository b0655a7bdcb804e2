import Pigeonpost.Verification.Shared.SampleLoft

/-! # The source behind proxies

The walk over a forwarding header stops at the first hop that is no trusted proxy, so that
what stands left of it, which that hop may have written, does not matter. -/

namespace Pigeonpost.Loft

section Walk

variable (parse : Bytes → Option SocketAddr)

/-- The elements, from the right, up to and including the first hop that is no trusted proxy. -/
def trustedSuffix (trusted : List IpAddr) : List Bytes → List Bytes
  | [] => []
  | element :: rest =>
    match forwardedHop parse element with
    | .ok hop => if hop.ip ∈ trusted then element :: trustedSuffix trusted rest else [element]
    | .error _ => element :: trustedSuffix trusted rest

variable {parse} {trusted : List IpAddr} {current : SocketAddr} {consumed : Bool}

theorem head?_trustedSuffix (xs : List Bytes) :
    (trustedSuffix parse trusted xs).head? = xs.head? := by
  cases xs with
  | nil => rfl
  | cons =>
    simp only [trustedSuffix]
    split
    · split <;> rfl
    · rfl

theorem head?_eq_of_trustedSuffix {xs ys : List Bytes}
    (h : trustedSuffix parse trusted xs = trustedSuffix parse trusted ys) :
    xs.head? = ys.head? := by
  rw [← head?_trustedSuffix xs, h, head?_trustedSuffix]

theorem walkForwarded_of_untrusted (h : current.ip ∉ trusted) (xs : List Bytes) :
    walkForwarded parse trusted current consumed xs = .ok (current, consumed) := by
  cases xs with
  | nil => rfl
  | cons => exact if_pos h

theorem walkForwarded_congr {xs ys : List Bytes} {a b : SocketAddr × Bool}
    (hs : trustedSuffix parse trusted xs = trustedSuffix parse trusted ys)
    (ha : walkForwarded parse trusted current consumed xs = .ok a)
    (hb : walkForwarded parse trusted current consumed ys = .ok b) : a = b := by
  induction xs generalizing ys current consumed with
  | nil =>
    obtain rfl := List.head?_eq_none_iff.mp (head?_eq_of_trustedSuffix hs).symm
    exact Except.ok.inj (ha.symm.trans hb)
  | cons element rest ih =>
    obtain ⟨rest', rfl⟩ := List.head?_eq_some_iff.mp (head?_eq_of_trustedSuffix hs).symm
    by_cases ht : current.ip ∉ trusted
    · rw [walkForwarded_of_untrusted ht] at ha hb
      exact Except.ok.inj (ha.symm.trans hb)
    · rw [walkForwarded, if_neg ht, bind_eq_ok] at ha hb
      obtain ⟨hop, hh, ha⟩ := ha
      obtain ⟨ho', hh', hb⟩ := hb
      cases hh.symm.trans hh'
      simp only [trustedSuffix, hh] at hs
      by_cases hp : hop.ip ∈ trusted
      · rw [if_pos hp, if_pos hp] at hs
        exact ih (List.cons.inj hs).2 ha hb
      · rw [walkForwarded_of_untrusted hp] at ha hb
        exact Except.ok.inj (ha.symm.trans hb)

theorem walkForwarded_of_resolvePeerSource {config : LoftConfig} {peer : Peer} {header : Bytes}
    {source : SocketAddr} (he : peer.effectiveSource = none) (hc : peer.connected = some current)
    (ht : current.ip ∈ config.trustedProxies) (h : resolvePeerSource parse config
      { peer with forwarded := some header } = .ok source) :
    ∃ consumed, walkForwarded parse config.trustedProxies current false
      (header.splitOn 0x2c).reverse = .ok (source, consumed) := by
  simp only [resolvePeerSource, he, hc, okOr_some, ok_bind, not_not.mpr ht, if_false, ok_iff,
    Prod.exists] at h
  obtain ⟨-, text, hf, -, _, consumed, hw, -, rfl⟩ := h
  simp only [Option.bind_some, headerToStr, Option.filter_eq_some_iff,
    Option.ite_none_right_eq_some, Option.some.injEq] at hf
  obtain ⟨⟨-, rfl⟩, -⟩ := hf
  exact ⟨consumed, hw⟩

end Walk

/-- What stands left of the first hop that is no trusted proxy does not change the source of a
request, and nothing in the header does where the connection is no trusted proxy itself. -/
theorem peer_source_unspoofable (parse : Bytes → Option SocketAddr) (config : LoftConfig)
    (peer : Peer) :
    (∀ (header header' : Bytes) (source source' : SocketAddr),
      trustedSuffix parse config.trustedProxies (header.splitOn 0x2c).reverse =
        trustedSuffix parse config.trustedProxies (header'.splitOn 0x2c).reverse →
      resolvePeerSource parse config { peer with forwarded := some header } = .ok source →
      resolvePeerSource parse config { peer with forwarded := some header' } = .ok source' →
        source = source') ∧
    ∀ connected, peer.effectiveSource = none → peer.connected = some connected →
      connected.ip ∉ config.trustedProxies →
        resolvePeerSource parse config peer = .ok connected := by
  refine ⟨fun header header' source source' hs h h' => ?_, fun connected he hc ht => ?_⟩
  · cases he : peer.effectiveSource with
    | some =>
      simp only [resolvePeerSource, he] at h h'
      exact Except.ok.inj (h.symm.trans h')
    | none =>
      cases hc : peer.connected with
      | none => simp [resolvePeerSource, he, hc, okOr] at h
      | some connected =>
        by_cases ht : connected.ip ∈ config.trustedProxies
        · obtain ⟨consumed, hw⟩ := walkForwarded_of_resolvePeerSource he hc ht h
          obtain ⟨consumed', hw'⟩ := walkForwarded_of_resolvePeerSource he hc ht h'
          exact congrArg Prod.fst (walkForwarded_congr hs hw hw')
        · simp only [resolvePeerSource, he, hc, okOr_some, ok_bind, if_pos ht] at h h'
          exact Except.ok.inj (h.symm.trans h')
  · simp only [resolvePeerSource, he, hc, okOr_some, ok_bind, if_pos ht]
    rfl

section Sample

def proxy : SocketAddr := ⟨.v4 ⟨10, 0, 0, 1⟩, 443⟩

/-- Addresses as their last digits. -/
def parseDigit (text : Bytes) : Option SocketAddr :=
  text.head?.map fun digit => ⟨.v4 ⟨203, 0, 113, digit⟩, 1⟩

def proxiedConfig : LoftConfig :=
  { SampleLoft.config 65536 65536 with trustedProxies := [proxy.ip] }

def proxied (header : String) : Except LoftError SocketAddr :=
  resolvePeerSource parseDigit proxiedConfig ⟨some proxy, some (ascii header), false, none⟩

/-- A client that writes a hop of its own into the header is seen as the same. -/
theorem peer_source_unspoofable_spoofed : ∃ source source' : SocketAddr,
    proxied "for=7" = .ok source ∧ proxied "for=6,for=7" = .ok source' ∧ source = source' :=
  ⟨⟨.v4 ⟨203, 0, 113, 0x37⟩, 1⟩, ⟨.v4 ⟨203, 0, 113, 0x37⟩, 1⟩, rfl, rfl,
    (peer_source_unspoofable parseDigit proxiedConfig ⟨some proxy, none, false, none⟩).1
      (ascii "for=7") (ascii "for=6,for=7") _ _ (by decide +kernel) rfl rfl⟩

end Sample

end Pigeonpost.Loft
