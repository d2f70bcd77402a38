import LocaleBundle.Build
import LocaleBundle.Plural.Untyped
import LocaleBundle.Proofs.Build.Alike
import LocaleBundle.Proofs.Build.Configured
import LocaleBundle.Proofs.Build.Gate
import LocaleBundle.Proofs.Build.History
import LocaleBundle.Proofs.Build.LatestStart
import LocaleBundle.Proofs.Build.LocaleFaults
import LocaleBundle.Proofs.Build.ModuleOrder
import LocaleBundle.Proofs.Build.Restart
import LocaleBundle.Proofs.Build.Tables
import LocaleBundle.Proofs.Bundle.Audited
import LocaleBundle.Proofs.Bundle.Captured
import LocaleBundle.Proofs.Bundle.Copies
import LocaleBundle.Proofs.Bundle.Inlining
import LocaleBundle.Proofs.Bundle.Isolation
import LocaleBundle.Proofs.Bundle.Originals
import LocaleBundle.Proofs.Bundle.Placeholders
import LocaleBundle.Proofs.Bundle.Tables
import LocaleBundle.Proofs.Bundle.Target
import LocaleBundle.Proofs.Bundle.Untranslated
import LocaleBundle.Proofs.Bundle.Warned
import LocaleBundle.Proofs.Bundle.WarnedOnce
import LocaleBundle.Proofs.Diagnostic.ReadBack
import LocaleBundle.Proofs.File.Temporary
import LocaleBundle.Proofs.File.Tree
import LocaleBundle.Proofs.Json.Lines
import LocaleBundle.Proofs.Key.Filling
import LocaleBundle.Proofs.Key.Inversion
import LocaleBundle.Proofs.KeyLedger
import LocaleBundle.Proofs.Locale.Acceptance
import LocaleBundle.Proofs.Locale.Alike
import LocaleBundle.Proofs.Locale.Audit
import LocaleBundle.Proofs.Locale.Backfill
import LocaleBundle.Proofs.Locale.Chain
import LocaleBundle.Proofs.Locale.Codec
import LocaleBundle.Proofs.Locale.Complete
import LocaleBundle.Proofs.Locale.Consistent
import LocaleBundle.Proofs.Locale.Cycles
import LocaleBundle.Proofs.Locale.Fallback
import LocaleBundle.Proofs.Locale.Files
import LocaleBundle.Proofs.Locale.Findings
import LocaleBundle.Proofs.Locale.Load
import LocaleBundle.Proofs.Locale.Loading
import LocaleBundle.Proofs.Locale.Lookup
import LocaleBundle.Proofs.Locale.Missing
import LocaleBundle.Proofs.Locale.PartialLoad
import LocaleBundle.Proofs.Locale.Readable
import LocaleBundle.Proofs.Locale.Record
import LocaleBundle.Proofs.Locale.Reload
import LocaleBundle.Proofs.Locale.Replacing
import LocaleBundle.Proofs.Locale.Retry
import LocaleBundle.Proofs.Locale.Search
import LocaleBundle.Proofs.Locale.Shape
import LocaleBundle.Proofs.Locale.Stepwise
import LocaleBundle.Proofs.Locale.Writing
import LocaleBundle.Proofs.Number.Fraction
import LocaleBundle.Proofs.Plural.Category
import LocaleBundle.Proofs.Plural.Redirects
import LocaleBundle.Proofs.Plural.Resolving
import LocaleBundle.Proofs.Plural.Walk
import LocaleBundle.Proofs.Plural.WholeNumber
import LocaleBundle.Proofs.Template.Client
import LocaleBundle.Proofs.Template.Reading
import LocaleBundle.Proofs.Token.Cut
import LocaleBundle.Proofs.Token.Replacing
import LocaleBundle.Proofs.Token.RoundTrip
import LocaleBundle.Proofs.Token.Scan
