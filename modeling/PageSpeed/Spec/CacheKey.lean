import PageSpeed.Spec.Ipc
import PageSpeed.Spec.UrlRegistry

/-!
# Cache keys

How a cache key is composed (`lib/cache/cache.cc`): from scheme, host and url, with the
signature of the option context and the site in front when there are any. The digest that
a key keeps of its string is the parameter `cacheKey`.
-/

namespace PageSpeed

open Wire

/-- The signature of the empty option context. -/
def kDefaultOptionContextSignature : Bytes :=
  lit "c0908a1c05a3d6b96d4ea614f60993a83b1eabc4cf7dccfd2899610749554f01"

/-- The context that adds nothing to a key. -/
def isDefaultOptionContext (signature : Bytes) : Bool :=
  signature.isEmpty ∨ signature = kDefaultOptionContextSignature

namespace PageSpeedCache

/-- The generation of the key format. -/
def kKeyNamespace : Bytes := lit "ks2:"

/-- The mark of a key with an option context. -/
def kContextKeyPrefix : Bytes := lit "oc1:"

/-- The mark of a key with a site. -/
def kSiteKeyPrefix : Bytes := lit "st1:"

variable {κ : Type} (cacheKey : Bytes → κ)

/-- The hash of a composed key of this generation. -/
def keyInNamespace (composed : Bytes) : κ := cacheKey (kKeyNamespace ++ composed)

/-- The three-argument overload. -/
def composePlainKeyPreNormalized (url normalizedHostname scheme : Bytes) : κ :=
  keyInNamespace cacheKey (scheme ++ lit "://" ++ normalizedHostname ++ url)

/-- The four-argument overload. -/
def composeKeyPreNormalized (url normalizedHostname scheme optionSignature : Bytes) : κ :=
  if isDefaultOptionContext optionSignature then
    composePlainKeyPreNormalized cacheKey url normalizedHostname scheme
  else
    keyInNamespace cacheKey (kContextKeyPrefix ++ optionSignature ++ [ch '@'] ++ scheme ++
      lit "://" ++ normalizedHostname ++ url)

/-- The sited form. It spells the context part out a second time. -/
def composeSiteKeyPreNormalized (url normalizedHostname scheme optionSignature site : Bytes) : κ :=
  if site.isEmpty then
    composeKeyPreNormalized cacheKey url normalizedHostname scheme optionSignature
  else
    let withContext := !isDefaultOptionContext optionSignature
    keyInNamespace cacheKey (kSiteKeyPrefix ++ site ++ [ch '@'] ++
      (if withContext then kContextKeyPrefix ++ optionSignature ++ [ch '@'] else []) ++ scheme ++
      lit "://" ++ normalizedHostname ++ url)

/-- The key of a resource of a site, in the default context. -/
def composeKey (url hostname scheme site : Bytes) : κ :=
  composeSiteKeyPreNormalized cacheKey url (normalizeHostname hostname) scheme [] site

end PageSpeedCache

end PageSpeed
