import AltMessenger.BitcoinKeys
import AltMessenger.LucasCertificates

/-!
The numbers of secp256k1: its field and the order of its base point are primes.
-/
namespace Secp256k1Primes
open LucasCertificates BitcoinKeys

def certificates : List Certificate :=
  [⟨1206781, 10, [2, 3, 5, 20113]⟩,
    ⟨1627771, 3, [2, 3, 5, 29, 1871]⟩,
    ⟨4681609, 23, [2, 3, 97, 2011]⟩,
    ⟨7240687, 3, [2, 3, 1206781]⟩,
    ⟨13331831, 13, [2, 5, 971, 1373]⟩,
    ⟨44706919, 6, [2, 3, 797, 9349]⟩,
    ⟨107590001, 3, [2, 5, 7, 29, 53]⟩,
    ⟨545358713, 5, [2, 41, 59, 28181]⟩,
    ⟨297159362677, 2, [2, 3, 11, 461, 1627771]⟩,
    ⟨107361793816595537, 3, [2, 16699, 85831, 4681609]⟩,
    ⟨173378833005251801, 6, [2, 5, 2621, 24809, 13331831]⟩,
    ⟨174723607534414371449, 3, [2, 17, 59, 4051, 120233, 44706919]⟩,
    ⟨22149492674086928081353, 5, [2, 3, 5323, 173378833005251801]⟩,
    ⟨132896956044521568488119, 6, [2, 3, 22149492674086928081353]⟩,
    ⟨29047611873442575647497758179, 2, [2, 293, 305873, 545358713, 297159362677]⟩,
    ⟨341948486974166000522343609283189, 2, [2, 3, 109, 29047611873442575647497758179]⟩,
    ⟨255515944373312847190720520512484175977, 3, [2, 7, 11, 1627, 2657, 4423, 41201, 96557,
      7240687, 107590001]⟩,
    ⟨205115282021455665897114700593932402728804164701536103180137503955397371, 10, [2, 3, 5, 29,
      31, 7723, 132896956044521568488119, 255515944373312847190720520512484175977]⟩,
    ⟨order, 7, [2, 3, 149, 631, 107361793816595537, 174723607534414371449,
      341948486974166000522343609283189]⟩,
    ⟨fieldPrime, 3, [2, 3, 7, 13441,
      205115282021455665897114700593932402728804164701536103180137503955397371]⟩]

theorem certificates_checked : checkAll [] certificates = true := by decide +kernel

theorem fieldPrime_prime : Nat.Prime fieldPrime :=
  prime_of_checkAll certificates_checked (by simp [certificates])

theorem order_prime : Nat.Prime order :=
  prime_of_checkAll certificates_checked (by simp [certificates])

end Secp256k1Primes
