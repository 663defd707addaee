import BitcoinKit.Schemes.Apart
import BitcoinKit.Schemes.BigEndian
import BitcoinKit.Schemes.Binary32
import BitcoinKit.Schemes.Civil
import BitcoinKit.Schemes.DatePattern
import BitcoinKit.Schemes.Decimal
import BitcoinKit.Schemes.Desk
import BitcoinKit.Schemes.Heap
import BitcoinKit.Schemes.Json
import BitcoinKit.Schemes.JsonText
import BitcoinKit.Schemes.KeyedSet
import BitcoinKit.Schemes.Mailbox
import BitcoinKit.Schemes.ModifiedUtf8
import BitcoinKit.Schemes.Run
import BitcoinKit.Schemes.Throwing
import BitcoinKit.Schemes.Watch
import BitcoinKit.Java.Announced
import BitcoinKit.Java.Balances
import BitcoinKit.Java.Calm
import BitcoinKit.Java.Chronicle
import BitcoinKit.Java.CocoaLogger
import BitcoinKit.Java.Custody
import BitcoinKit.Java.DerivedKeys
import BitcoinKit.Java.Encryption
import BitcoinKit.Java.Failures
import BitcoinKit.Java.Footing
import BitcoinKit.Java.Frames
import BitcoinKit.Java.Hearing
import BitcoinKit.Java.LastWalletChange
import BitcoinKit.Java.Ledger
import BitcoinKit.Java.Leftovers
import BitcoinKit.Java.Library
import BitcoinKit.Java.Lifecycle
import BitcoinKit.Java.Listening
import BitcoinKit.Java.Loggers
import BitcoinKit.Java.Paging
import BitcoinKit.Java.Passwords
import BitcoinKit.Java.Payments
import BitcoinKit.Java.Preview
import BitcoinKit.Java.Process
import BitcoinKit.Java.Rekeying
import BitcoinKit.Java.Report
import BitcoinKit.Java.Step
import BitcoinKit.Java.System
import BitcoinKit.Java.Throwable
import BitcoinKit.Java.Tracking
import BitcoinKit.Java.Turns
import BitcoinKit.Java.Watched
import BitcoinKit.Java.World
import BitcoinKit.Cocoa.Amounts
import BitcoinKit.Cocoa.Answers
import BitcoinKit.Cocoa.Bridge
import BitcoinKit.Cocoa.Calls
import BitcoinKit.Cocoa.Crossing
import BitcoinKit.Cocoa.Display
import BitcoinKit.Cocoa.Manager
import BitcoinKit.Cocoa.Outcomes
import BitcoinKit.Cocoa.Running
import BitcoinKit.Cocoa.Texts
import BitcoinKit.Cocoa.Transactions
import BitcoinKit.Properties.Amounts
import BitcoinKit.Properties.Announced
import BitcoinKit.Properties.Atomic
import BitcoinKit.Properties.Balances
import BitcoinKit.Properties.Callbacks
import BitcoinKit.Properties.Coins
import BitcoinKit.Properties.Contained
import BitcoinKit.Properties.CreationTime
import BitcoinKit.Properties.Credentials
import BitcoinKit.Properties.Dates
import BitcoinKit.Properties.Display
import BitcoinKit.Properties.Erased
import BitcoinKit.Properties.Held
import BitcoinKit.Properties.KeyKept
import BitcoinKit.Properties.LastChange
import BitcoinKit.Properties.Listeners
import BitcoinKit.Properties.Loggers
import BitcoinKit.Properties.Logging
import BitcoinKit.Properties.News
import BitcoinKit.Properties.NewsShown
import BitcoinKit.Properties.Outcome
import BitcoinKit.Properties.Paging
import BitcoinKit.Properties.PaidOnce
import BitcoinKit.Properties.Preview
import BitcoinKit.Properties.Progress
import BitcoinKit.Properties.Queries
import BitcoinKit.Properties.Ranges
import BitcoinKit.Properties.Rebuilt
import BitcoinKit.Properties.Relaunch
import BitcoinKit.Properties.Replies
import BitcoinKit.Properties.Report
import BitcoinKit.Properties.Restart
import BitcoinKit.Properties.Retried
import BitcoinKit.Properties.Running
import BitcoinKit.Properties.Sends
import BitcoinKit.Properties.Sessions
import BitcoinKit.Properties.SyncShown
import BitcoinKit.Properties.Texts
import BitcoinKit.Properties.Unblocked
import BitcoinKit.Properties.Validity
import BitcoinKit.Properties.Wiped
